import Mathlib.Logic.Relation
import IrcPlatform.Webserv.BlockContexts

/-!
# Texts with permuted directives

A text after which no token, quote or comment is open may be cut there: the tokens of the whole
are the tokens of its parts. `Config::parse` sees the values of the tokens only, so permuting
the directives of a block in the text changes nothing but the text of an error.
-/

namespace IrcPlatform.Webserv

namespace Config

/-! ## Values of tokens -/

namespace Tokenizer

/-- The state has the values of another one after values that were collected before it. -/
structure After (before : List Bytes) (state later : Tokenizer) : Prop where
  tokens : state.tokens.map ConfigToken.value = before ++ later.tokens.map ConfigToken.value
  current : state.current = later.current
  quote : state.quote = later.quote
  comment : state.comment = later.comment

variable {before : List Bytes} {state later : Tokenizer}

theorem After.flush (after : After before state later) : After before state.flush later.flush := by
  unfold Tokenizer.flush
  rw [after.current]
  split
  · exact after
  · refine ⟨?_, rfl, after.quote, after.comment⟩
    simp [after.tokens]

theorem After.push (after : After before state later) (value : Bytes) (line line' : Nat) :
    After before (state.push value line) (later.push value line') := by
  refine ⟨?_, after.current, after.quote, after.comment⟩
  simp [Tokenizer.push, after.tokens]

theorem After.step (after : After before state later) (c : UInt8) :
    Agree (After before) (state.step c) (later.step c) := by
  unfold Tokenizer.step
  rw [after.comment, after.quote]
  refine .ite (fun _ => ?_) fun _ => ?_
  · refine .ok ?_
    split
    · exact ⟨after.tokens, after.current, rfl, rfl⟩
    · exact after
  · cases later.quote with
    | some quote =>
        dsimp only
        refine .ite (fun _ => .ok ?_) fun _ => .ite (fun _ => .error _ _) fun _ => .ok ?_
        · rw [after.current]
          exact ⟨(after.push _ _ _).tokens, rfl, rfl, after.comment⟩
        · refine ⟨after.tokens, ?_, rfl, rfl⟩
          dsimp only
          rw [after.current]
    | none =>
        dsimp only
        refine .ite (fun _ => .ok ?_) fun _ => .ite (fun _ => ?_) fun _ =>
          .ite (fun _ => .ok ?_) fun _ => .ite (fun _ => .ok ?_) fun _ => .ok ?_
        · exact ⟨after.flush.tokens, after.flush.current, after.flush.quote, rfl⟩
        · rw [after.current]
          refine .ite (fun _ => .error _ _) fun _ => .ok ?_
          exact ⟨after.tokens, rfl, rfl, rfl⟩
        · exact after.flush.push _ _ _
        · exact ⟨after.flush.tokens, after.flush.current, after.flush.quote, after.flush.comment⟩
        · refine ⟨after.tokens, ?_, rfl, rfl⟩
          dsimp only
          rw [after.current]

end Tokenizer

/-- The values of the tokens, if the text has tokens. -/
def tokenValues (text : Bytes) : Option (List Bytes) :=
  (tokenize text).toOption.map fun tokens => tokens.map ConfigToken.value

/-- No token, quote or comment is open after the text. -/
def closed (text : Bytes) : Bool :=
  match text.foldlM Tokenizer.step {} with
  | .ok state => state.current.isEmpty && state.quote.isNone && !state.comment
  | .error _ => true

def endText (state : Tokenizer) : Option (List Bytes) :=
  match state.quote with
  | some _ => none
  | none => some (state.flush.tokens.map ConfigToken.value)

theorem tokenValues_eq (text : Bytes) :
    tokenValues text = (text.foldlM Tokenizer.step {}).toOption.bind endText := by
  unfold tokenValues tokenize
  cases text.foldlM Tokenizer.step {} with
  | error failure => rfl
  | ok state =>
      dsimp only [Except.bind, Except.toOption, Option.bind_some, endText]
      cases state.quote with
      | none => rfl
      | some quote => rfl

theorem Tokenizer.After.endText {before : List Bytes} {state later : Tokenizer}
    (after : Tokenizer.After before state later) :
    endText state = (endText later).map (before ++ ·) := by
  unfold Config.endText
  rw [after.quote]
  cases later.quote with
  | none => exact congrArg some after.flush.tokens
  | some quote => rfl

/-- Where a text may be cut, its tokens are those of the parts. -/
theorem tokenValues_append {front : Bytes} (cut : closed front = true) (back : Bytes) :
    tokenValues (front ++ back) =
      (tokenValues front).bind fun before => (tokenValues back).map (before ++ ·) := by
  rw [tokenValues_eq, tokenValues_eq, tokenValues_eq, List.foldlM_append]
  unfold closed at cut
  cases read : front.foldlM Tokenizer.step {} with
  | error failure => rfl
  | ok state =>
      rw [read] at cut
      simp only [Bool.and_eq_true, List.isEmpty_iff, Option.isNone_iff_eq_none,
        Bool.not_eq_true'] at cut
      rcases cut with ⟨⟨current, quote⟩, comment⟩
      have start : Tokenizer.After (state.tokens.map ConfigToken.value) state {} :=
        ⟨(List.append_nil _).symm, current, quote, comment⟩
      have ended : endText state = some (state.tokens.map ConfigToken.value) := by
        rw [start.endText]
        exact congrArg some (List.append_nil _)
      have later := foldlM_agree (fun _ _ c after => Tokenizer.After.step after c) back start
      simp only [Except.toOption, Option.bind_some, ended]
      generalize same : back.foldlM Tokenizer.step {} = second at later ⊢
      have joined : (Except.ok state >>= fun state => back.foldlM Tokenizer.step state) =
          back.foldlM Tokenizer.step state := rfl
      rw [joined]
      generalize back.foldlM Tokenizer.step state = first at later ⊢
      cases later with
      | ok after => exact after.endText
      | error => rfl

/-- `Config::parse` on the values of the tokens. -/
def parseValues (values : List Bytes) : Except Bytes (List ServerConfig) :=
  (parseServers values.length (unlined values)).bind fun servers =>
    if servers.isEmpty then .error (ascii "config contains no server")
    else if hasDuplicate servers then .error (ascii "duplicate listen address")
    else .ok servers

theorem parse_of_tokenValues {content : Bytes} {values : List Bytes}
    (written : tokenValues content = some values) :
    Agree Eq (parse content) (parseValues values) := by
  unfold tokenValues at written
  unfold parse
  cases read : tokenize content with
  | error failure =>
      rw [read] at written
      exact absurd written (Option.some_ne_none _).symm
  | ok tokens =>
      rw [read] at written
      have values : tokens.map ConfigToken.value = values := Option.some.inj written
      subst values
      unfold parseValues
      rw [List.length_map]
      exact (parseServers_agree (sameValues_unlined tokens)).bind_same _

theorem parse_of_no_tokens {content : Bytes} (unwritten : tokenValues content = none) :
    ∃ failure, parse content = .error failure := by
  unfold tokenValues at unwritten
  unfold parse
  cases read : tokenize content with
  | error failure => exact ⟨failure, rfl⟩
  | ok tokens =>
      rw [read] at unwritten
      exact absurd unwritten (Option.some_ne_none _)

/-- The values mean the same to the parser. -/
def SameMeaning (values values' : List Bytes) : Prop :=
  Agree Eq (parseValues values) (parseValues values')

/-- The parser sees the values of the tokens only. -/
theorem parse_agree {content content' : Bytes}
    (same : Option.Rel SameMeaning (tokenValues content) (tokenValues content')) :
    Agree Eq (parse content) (parse content') := by
  generalize written : tokenValues content = values at same
  generalize written' : tokenValues content' = values' at same
  cases same with
  | some agree =>
      refine (parse_of_tokenValues written).trans eq_equivalence ?_
      exact agree.trans eq_equivalence ((parse_of_tokenValues written').symm eq_equivalence)
  | none =>
      rcases parse_of_no_tokens written with ⟨failure, fails⟩
      rcases parse_of_no_tokens written' with ⟨failure', fails'⟩
      rw [fails, fails']
      exact .error failure failure'

/-! ## Pieces of text -/

/-- A piece of text that is written for one item, whose tokens have the given values. Nothing is
said of a piece without tokens: it spoils every text that it stands in. -/
structure Written (ι : Type) (values : ι → List Bytes) where
  text : Bytes
  item : ι
  cut : closed text = true
  spells : ∀ read, tokenValues text = some read → read = values item

/-- A piece that has the tokens of its item. -/
def written {ι : Type} {values : ι → List Bytes} (text : Bytes) (item : ι)
    (cut : closed text = true) (spells : tokenValues text = some (values item)) :
    Written ι values :=
  ⟨text, item, cut, fun _ same => Option.some.inj (same.symm.trans spells)⟩

section Pieces

variable {ι : Type} {values : ι → List Bytes} {pieces pieces' : List (Written ι values)}

def textOf (pieces : List (Written ι values)) : Bytes := pieces.flatMap Written.text

def itemsOf (pieces : List (Written ι values)) : List ι := pieces.map Written.item

def Tokenized (pieces : List (Written ι values)) : Prop :=
  ∀ piece ∈ pieces, tokenValues piece.text ≠ none

theorem tokenValues_textOf (read : Tokenized pieces) (rest : Bytes) :
    tokenValues (textOf pieces ++ rest) =
      (tokenValues rest).map ((itemsOf pieces).flatMap values ++ ·) := by
  induction pieces with
  | nil => exact Option.map_id'.symm
  | cons piece pieces ih =>
      rw [Tokenized, List.forall_mem_cons] at read
      rcases Option.ne_none_iff_exists'.mp read.1 with ⟨own, written⟩
      have join : textOf (piece :: pieces) ++ rest = piece.text ++ (textOf pieces ++ rest) := by
        simp [textOf]
      rw [join, tokenValues_append piece.cut, written, piece.spells own written, ih read.2]
      cases tokenValues rest with
      | none => rfl
      | some last => exact congrArg some (List.append_assoc _ _ _).symm

theorem tokenValues_textOf_none (unread : ¬Tokenized pieces) (rest : Bytes) :
    tokenValues (textOf pieces ++ rest) = none := by
  induction pieces with
  | nil => exact absurd (fun _ listed => absurd listed List.not_mem_nil) unread
  | cons piece pieces ih =>
      rw [Tokenized, List.forall_mem_cons] at unread
      have join : textOf (piece :: pieces) ++ rest = piece.text ++ (textOf pieces ++ rest) := by
        simp [textOf]
      rw [join, tokenValues_append piece.cut]
      cases written : tokenValues piece.text with
      | none => rfl
      | some own =>
          have later : ¬Tokenized pieces := fun read =>
            unread ⟨by rw [written]; exact Option.some_ne_none own, read⟩
          rw [ih later]
          rfl

theorem tokenized_perm (perm : pieces.Perm pieces') : Tokenized pieces ↔ Tokenized pieces' := by
  unfold Tokenized
  simp only [perm.mem_iff]

/-- Pieces may be permuted where the tokens of their items may. -/
theorem sameMeaning_textOf (perm : pieces.Perm pieces') {front : Bytes}
    (cut : closed front = true) (rest : Bytes)
    (same : ∀ before last, tokenValues front = some before → SameMeaning
      (before ++ ((itemsOf pieces).flatMap values ++ last))
      (before ++ ((itemsOf pieces').flatMap values ++ last))) :
    Option.Rel SameMeaning (tokenValues (front ++ (textOf pieces ++ rest)))
      (tokenValues (front ++ (textOf pieces' ++ rest))) := by
  rw [tokenValues_append cut, tokenValues_append cut]
  cases opened : tokenValues front with
  | none => exact .none
  | some before =>
      by_cases read : Tokenized pieces
      · rw [tokenValues_textOf read, tokenValues_textOf ((tokenized_perm perm).mp read)]
        cases tokenValues rest with
        | none => exact .none
        | some last => exact .some (same before last opened)
      · rw [tokenValues_textOf_none read,
          tokenValues_textOf_none fun other => read ((tokenized_perm perm).mpr other)]
        exact .none

end Pieces

/-! ## Permutations -/

/-- The text ends with the opening of a block. -/
structure Opens (front : Bytes) (opening : List Bytes) : Prop where
  cut : closed front = true
  values : ∀ values, tokenValues front = some values → ∃ before, values = before ++ opening

theorem opens_of_tokenValues {front : Bytes} {before opening : List Bytes}
    (cut : closed front = true) (spells : tokenValues front = some (before ++ opening)) :
    Opens front opening :=
  ⟨cut, fun _ same => ⟨before, Option.some.inj (same.symm.trans spells)⟩⟩

/-- The second text has the directives of one block of the first in another order, or it is the
first one with other spaces, comments and quotes. -/
inductive Rearranged : Bytes → Bytes → Prop
  | server {front : Bytes} {pieces pieces' : List (Written Item Item.values)} (rest : Bytes)
      (opens : Opens front [ascii "server", openBrace])
      (proper : ∀ piece ∈ pieces, piece.item.Proper) (perm : pieces.Perm pieces')
      (order : pieces.filter (·.item.isLocation) = pieces'.filter (·.item.isLocation)) :
      Rearranged (front ++ (textOf pieces ++ rest)) (front ++ (textOf pieces' ++ rest))
  | location {front path : Bytes} {pieces pieces' : List (Written Directive Directive.values)}
      (rest : Bytes) (opens : Opens front [ascii "location", path, openBrace])
      (noEnd : path ≠ ascii ";") (proper : ∀ piece ∈ pieces, piece.item.Proper)
      (perm : pieces.Perm pieces') :
      Rearranged (front ++ (textOf pieces ++ rest)) (front ++ (textOf pieces' ++ rest))
  | spelled {content content' : Bytes} (same : tokenValues content = tokenValues content') :
      Rearranged content content'

theorem sameMeaning_refl (values : List Bytes) : SameMeaning values values :=
  .refl eq_equivalence _

/-- Blocks with the same meaning may replace each other among any tokens. -/
theorem sameMeaning_of_alike {word : Bytes} {values values' : List Bytes}
    (alike : Alike ⟨word, 0⟩ (unlined values) (unlined values')) (outer : List Bytes) :
    SameMeaning (outer ++ word :: values) (outer ++ word :: values') := by
  have length : (outer ++ word :: values).length = (outer ++ word :: values').length := by
    have more := alike.length
    rw [length_unlined, length_unlined] at more
    simp [more]
  unfold SameMeaning parseValues
  rw [length, unlined_append, unlined_append, unlined_cons, unlined_cons]
  exact (parseServers_around alike (around_append _)).bind_same _

theorem Rearranged.sameMeaning {content content' : Bytes}
    (rearranged : Rearranged content content') :
    Option.Rel SameMeaning (tokenValues content) (tokenValues content') := by
  cases rearranged with
  | @server front pieces pieces' rest opens proper perm order =>
      refine sameMeaning_textOf perm opens.cut rest fun before last written => ?_
      rcases opens.values before written with ⟨outer, rfl⟩
      have items : ∀ item ∈ itemsOf pieces, item.Proper := List.forall_mem_map.mpr proper
      have kept : (itemsOf pieces).filter Item.isLocation =
          (itemsOf pieces').filter Item.isLocation := by
        unfold itemsOf
        rw [List.filter_map, List.filter_map]
        exact congrArg itemsOf order
      have meaning := sameMeaning_of_alike
        (alike_server items (perm.map Written.item) kept last) outer
      rw [List.append_assoc, List.append_assoc]
      exact meaning
  | @location front path pieces pieces' rest opens noEnd proper perm =>
      refine sameMeaning_textOf perm opens.cut rest fun before last written => ?_
      rcases opens.values before written with ⟨outer, rfl⟩
      have directives : ∀ directive ∈ itemsOf pieces, directive.Proper :=
        List.forall_mem_map.mpr proper
      have meaning := sameMeaning_of_alike
        (alike_location noEnd directives (perm.map Written.item) last) outer
      rw [List.append_assoc, List.append_assoc]
      exact meaning
  | spelled same =>
      rw [same]
      cases tokenValues content' with
      | none => exact .none
      | some values => exact .some (sameMeaning_refl values)

/-- Permuting the directives of blocks, with the locations of a server in their order, does not
change the servers of a configuration. -/
theorem parse_rearranged {content content' : Bytes}
    (rearranged : Relation.ReflTransGen Rearranged content content') :
    Agree Eq (parse content) (parse content') := by
  induction rearranged with
  | refl => exact .refl eq_equivalence _
  | tail _ last ih => exact ih.trans eq_equivalence (parse_agree last.sameMeaning)

def listenPiece : Written Item Item.values :=
  written (ascii "listen 8080;") (.directive ⟨ascii "listen", [ascii "8080"]⟩) (by decide +kernel)
    (by decide +kernel)

def locationPiece : Written Item Item.values :=
  written (ascii " location / \x7bindex a; redir '/b c';\x7d # all\n")
    (.location (ascii "/") [⟨ascii "index", [ascii "a"]⟩, ⟨ascii "redir", [ascii "/b c"]⟩])
    (by decide +kernel) (by decide +kernel)

def indexPiece : Written Directive Directive.values :=
  written (ascii "index a;") ⟨ascii "index", [ascii "a"]⟩ (by decide +kernel) (by decide +kernel)

def redirectPiece : Written Directive Directive.values :=
  written (ascii " redir '/b c';") ⟨ascii "redir", [ascii "/b c"]⟩ (by decide +kernel)
    (by decide +kernel)

/-- The directives of a server are exchanged, and then those of its location. -/
theorem parse_rearranged_two : Agree Eq
    (parse (ascii "server\x7blisten 8080; location / \x7bindex a; redir '/b c';\x7d # all\n\x7d"))
    (parse (ascii
      "server\x7b location / \x7b redir '/b c';index a;\x7d # all\nlisten 8080;\x7d")) := by
  have serverCut : tokenValues (ascii "server\x7b") =
      some ([] ++ [ascii "server", openBrace]) := by decide +kernel
  have server : Opens (ascii "server\x7b") [ascii "server", openBrace] :=
    opens_of_tokenValues (by decide +kernel) serverCut
  have locationCut : tokenValues (ascii "server\x7b location / \x7b") =
      some ([ascii "server", openBrace] ++ [ascii "location", ascii "/", openBrace]) := by
    decide +kernel
  have location : Opens (ascii "server\x7b location / \x7b")
      [ascii "location", ascii "/", openBrace] :=
    opens_of_tokenValues (by decide +kernel) locationCut
  have items : ∀ piece ∈ [listenPiece, locationPiece], piece.item.Proper := by decide +kernel
  have directives : ∀ piece ∈ [indexPiece, redirectPiece], piece.item.Proper := by decide +kernel
  have exchanged := Rearranged.server (ascii "\x7d") server items (.swap _ _ _) rfl
  have inside := Rearranged.location (ascii "\x7d # all\nlisten 8080;\x7d") location
    (by decide +kernel) directives (.swap _ _ _)
  have start : ascii "server\x7b" ++ (textOf [listenPiece, locationPiece] ++ ascii "\x7d") =
      ascii "server\x7blisten 8080; location / \x7bindex a; redir '/b c';\x7d # all\n\x7d" := by
    decide +kernel
  have middle : ascii "server\x7b" ++ (textOf [locationPiece, listenPiece] ++ ascii "\x7d") =
      ascii "server\x7b location / \x7b" ++ (textOf [indexPiece, redirectPiece] ++
        ascii "\x7d # all\nlisten 8080;\x7d") := by
    decide +kernel
  have finish : ascii "server\x7b location / \x7b" ++ (textOf [redirectPiece, indexPiece] ++
        ascii "\x7d # all\nlisten 8080;\x7d") =
      ascii "server\x7b location / \x7b redir '/b c';index a;\x7d # all\nlisten 8080;\x7d" := by
    decide +kernel
  rw [start, middle] at exchanged
  rw [finish] at inside
  exact parse_rearranged ((Relation.ReflTransGen.single exchanged).tail inside)

end Config

end IrcPlatform.Webserv
