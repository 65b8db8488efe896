import IrcPlatform.Webserv.Built

/-!
# Outputs of scripts

Where the header block of an output ends. A script ends its lines with line feeds or with
carriage returns and line feeds, and may mix them; the blank line after the headers is found
unless the two kinds meet there or the body looks like the end of another block.
-/

namespace IrcPlatform.Webserv

/-- How a script ends a line. -/
inductive LineEnd where
  | feed
  | returnFeed
deriving DecidableEq

def LineEnd.text : LineEnd → Bytes
  | feed => [10]
  | returnFeed => crlf

namespace CgiHandler

instance (line : Bytes) : Decidable (Refused line) := inferInstanceAs (Decidable (_ ∨ _))

/-- A line that the header block of an output may have. -/
structure HeaderLine (line : Bytes) : Prop where
  noReturn : 13 ∉ line
  noFeed : 10 ∉ line
  accepted : ¬Refused line

/-- The lines as the script writes them. -/
def written (lines : List (Bytes × LineEnd)) : Bytes :=
  lines.flatMap fun line => line.1 ++ line.2.text

/-- Header lines, an empty line and a body. -/
def scriptOutput (lines : List (Bytes × LineEnd)) (blank : LineEnd) (body : Bytes) : Bytes :=
  written lines ++ blank.text ++ body

/-- The response that header lines and a body make. -/
def responseOf (lines : List Bytes) (body : Bytes) : Option Response :=
  (addEach lines ({ status := 200 }, false)).map fun state =>
    { state.1 with headers := withContentType state, body := body }

/-- The blank line behind the lines is the end that is looked for: two line ends of the one
kind, or two line feeds with no such end in the body. -/
def EndsHeaders (lines : List (Bytes × LineEnd)) (body : Bytes) : LineEnd → Prop
  | .returnFeed => lines.getLast?.map (·.2) = some .returnFeed
  | .feed => lines ≠ [] ∧ findFrom blankLine body 0 = none

variable {lines : List (Bytes × LineEnd)} {blank : LineEnd} {body : Bytes}

theorem HeaderLine.exists_cons {line : Bytes} (proper : HeaderLine line) :
    ∃ c rest, line = c :: rest ∧ c ≠ 13 ∧ c ≠ 10 := by
  have colon : byte ':' ∈ line := by
    by_contra missing
    exact proper.accepted (Or.inl missing)
  rcases List.exists_cons_of_ne_nil (List.ne_nil_of_mem colon) with ⟨c, rest, rfl⟩
  exact ⟨c, rest, rfl, fun same => proper.noReturn (same ▸ List.mem_cons_self),
    fun same => proper.noFeed (same ▸ List.mem_cons_self)⟩

/-! ## The search -/

/-- The two ends of a header block. -/
inductive BlockEnd : Bytes → Prop
  | returns : BlockEnd blankLine
  | feeds : BlockEnd [10, 10]

theorem BlockEnd.ne_nil {pattern : Bytes} (known : BlockEnd pattern) : pattern ≠ [] := by
  cases known <;> exact List.cons_ne_nil _ _

/-- No block ends at a line end with a further line behind it. -/
theorem indexOf_lineEnd {pattern : Bytes} (known : BlockEnd pattern) (ending : LineEnd) {c : UInt8}
    (notReturn : c ≠ 13) (notFeed : c ≠ 10) (rest : Bytes) :
    indexOf pattern (ending.text ++ c :: rest) =
      (indexOf pattern (c :: rest)).map (ending.text.length + ·) := by
  refine indexOf_append fun position before occurs => ?_
  have places : position = 0 ∨ (position = 1 ∧ ending = .returnFeed) := by
    cases ending with
    | feed => exact Or.inl (Nat.lt_one_iff.mp before)
    | returnFeed =>
        rcases Nat.le_one_iff_eq_zero_or_eq_one.mp (Nat.le_of_lt_succ before) with first | second
        · exact Or.inl first
        · exact Or.inr ⟨second, rfl⟩
  unfold OccursAt at occurs
  rcases places with rfl | ⟨rfl, rfl⟩
  · cases known <;> cases ending <;>
      simp [blankLine, LineEnd.text, crlf, List.cons_prefix_cons, Ne.symm notReturn,
        Ne.symm notFeed] at occurs
  · cases known <;>
      simp [blankLine, LineEnd.text, crlf, List.cons_prefix_cons, Ne.symm notFeed] at occurs

/-- The search passes over every line but the last one. -/
theorem indexOf_written {pattern : Bytes} (known : BlockEnd pattern)
    (proper : ∀ line ∈ lines, HeaderLine line.1) {last : Bytes} (properLast : HeaderLine last)
    (rest : Bytes) :
    indexOf pattern (written lines ++ last ++ rest) =
      (indexOf pattern rest).map ((written lines ++ last).length + ·) := by
  have passed {line : Bytes} (header : HeaderLine line) (rest : Bytes) :
      indexOf pattern (line ++ rest) = (indexOf pattern rest).map (line.length + ·) := by
    cases known with
    | returns => exact indexOf_append_of_free rfl header.noReturn
    | feeds => exact indexOf_append_of_free rfl header.noFeed
  induction lines with
  | nil => exact passed properLast rest
  | cons line lines ih =>
      rw [List.forall_mem_cons] at proper
      have begins : ∃ c more, written lines ++ last ++ rest = c :: more ∧ c ≠ 13 ∧ c ≠ 10 := by
        cases lines with
        | nil =>
            rcases properLast.exists_cons with ⟨c, more, rfl, apart⟩
            exact ⟨c, _, rfl, apart⟩
        | cons next others =>
            rcases (proper.2 next List.mem_cons_self).exists_cons with ⟨c, more, same, apart⟩
            refine ⟨c, more ++ next.2.text ++ written others ++ last ++ rest, ?_, apart⟩
            simp [written, same]
      rcases begins with ⟨c, more, same, notReturn, notFeed⟩
      have parts : written (line :: lines) ++ last ++ rest =
          line.1 ++ (line.2.text ++ (written lines ++ last ++ rest)) := by
        simp only [written, List.flatMap_cons, List.append_assoc]
      rw [parts, passed proper.1, same, indexOf_lineEnd known line.2 notReturn notFeed, ← same,
        ih proper.2, Option.map_map, Option.map_map]
      congr 1
      funext position
      simp only [Function.comp_apply, written, List.flatMap_cons, List.length_append]
      omega

/-! ## The lines of the block -/

theorem nextLine_ended {line : Bytes} (proper : HeaderLine line) (ending : LineEnd)
    (rest : Bytes) : nextLine (line ++ (ending.text ++ rest)) = some (line, rest) := by
  cases ending with
  | feed =>
      have taken := nextLine_feed proper.noFeed rest
      rw [dropReturn_of_plain proper.noReturn] at taken
      exact taken
  | returnFeed =>
      have plain : 10 ∉ line ++ [13] := by
        rw [List.mem_append, not_or]
        exact ⟨proper.noFeed, by decide⟩
      have taken := nextLine_feed plain rest
      rw [dropReturn_concat, List.append_assoc] at taken
      exact taken

theorem headLines_written (proper : ∀ line ∈ lines, HeaderLine line.1) (rest : Bytes) :
    headLines (written lines ++ rest) = lines.map (·.1) ++ headLines rest := by
  induction lines with
  | nil => rfl
  | cons line lines ih =>
      rw [List.forall_mem_cons] at proper
      have parts : written (line :: lines) ++ rest =
          line.1 ++ (line.2.text ++ (written lines ++ rest)) := by
        simp only [written, List.flatMap_cons, List.append_assoc]
      rw [parts, headLines_of_nextLine (nextLine_ended proper.1 line.2 _), ih proper.2,
        List.map_cons, List.cons_append]

/-- The last line of the block, with or without its carriage return. -/
theorem headLines_last {last : Bytes} (proper : HeaderLine last) {returns : Bytes}
    (atMost : returns = [] ∨ returns = [13]) : headLines (last ++ returns) = [last] := by
  have plain : 10 ∉ last ++ returns := by
    rw [List.mem_append, not_or]
    refine ⟨proper.noFeed, ?_⟩
    rcases atMost with rfl | rfl <;> decide
  have dropped : dropReturn (last ++ returns) = last := by
    rcases atMost with rfl | rfl
    · rw [List.append_nil, dropReturn_of_plain proper.noReturn]
    · exact dropReturn_concat last
  have nonempty : last ++ returns ≠ [] := by
    rcases proper.exists_cons with ⟨c, rest, rfl, _⟩
    exact List.cons_ne_nil _ _
  rw [headLines_of_nextLine (nextLine_end plain nonempty), dropped]
  rfl

/-! ## The split -/

theorem scriptOutput_concat (lines : List (Bytes × LineEnd)) (last : Bytes) (ending : LineEnd) :
    scriptOutput (lines ++ [(last, ending)]) blank body =
      written lines ++ last ++ (ending.text ++ (blank.text ++ body)) := by
  simp [scriptOutput, written]

theorem splitOutput_of_returns {front text : Bytes}
    (found : indexOf blankLine (front ++ (blankLine ++ text)) = some front.length) :
    splitOutput (front ++ (blankLine ++ text)) = some (front, text) := by
  have size : blankLine.length = 4 := rfl
  rw [splitOutput, findFrom_zero, found]
  dsimp only
  rw [List.take_left, ← size, ← List.drop_drop, List.drop_left, List.drop_left]

theorem splitOutput_of_feeds {front text : Bytes}
    (absent : indexOf blankLine (front ++ ([10, 10] ++ text)) = none)
    (found : indexOf [10, 10] (front ++ ([10, 10] ++ text)) = some front.length) :
    splitOutput (front ++ ([10, 10] ++ text)) = some (front, text) := by
  have size : ([10, 10] : Bytes).length = 2 := rfl
  rw [splitOutput, findFrom_zero, absent, findFrom_zero, found]
  dsimp only [Option.map_some]
  rw [List.take_left, ← size, ← List.drop_drop, List.drop_left, List.drop_left]

/-- An output whose blank line is found is split there, into its lines and its body. -/
theorem splitOutput_of_endsHeaders (proper : ∀ line ∈ lines, HeaderLine line.1)
    (ends : EndsHeaders lines body blank) : ∃ block,
      splitOutput (scriptOutput lines blank body) = some (block, body) ∧
      headLines block = lines.map (·.1) := by
  rcases List.eq_nil_or_concat lines with rfl | ⟨upper, ⟨last, ending⟩, rfl⟩
  · cases blank with
    | feed => exact absurd rfl ends.1
    | returnFeed => cases ends
  rw [List.concat_eq_append] at proper ends ⊢
  rw [List.forall_mem_append, List.forall_mem_singleton] at proper
  rcases proper with ⟨properUpper, properLast⟩
  have search {pattern : Bytes} (known : BlockEnd pattern) :=
    indexOf_written known properUpper properLast
  have cut {returns : Bytes} (atMost : returns = [] ∨ returns = [13]) :
      headLines (written upper ++ last ++ returns) = (upper ++ [(last, ending)]).map (·.1) := by
    rw [List.append_assoc, headLines_written properUpper, headLines_last properLast atMost,
      List.map_append]
    rfl
  rw [scriptOutput_concat]
  cases blank with
  | returnFeed =>
      have same : ending = .returnFeed := by simpa [EndsHeaders] using ends
      subst same
      refine ⟨written upper ++ last, ?_, ?_⟩
      · have parts : LineEnd.returnFeed.text ++ (LineEnd.returnFeed.text ++ body) =
            blankLine ++ body := rfl
        rw [parts]
        refine splitOutput_of_returns ?_
        rw [search .returns]
        rfl
      · rw [← cut (Or.inl rfl), List.append_nil]
  | feed =>
      have absent : indexOf blankLine body = none := by
        rw [← findFrom_zero]
        exact ends.2
      cases ending with
      | feed =>
          refine ⟨written upper ++ last, ?_, ?_⟩
          · refine splitOutput_of_feeds ?_ ?_
            · rw [search .returns, indexOf_append_of_free rfl (by decide), absent]
              rfl
            · rw [search .feeds]
              rfl
          · rw [← cut (Or.inl rfl), List.append_nil]
      | returnFeed =>
          refine ⟨written upper ++ last ++ [13], ?_, cut (Or.inr rfl)⟩
          have parts :
              written upper ++ last ++ (LineEnd.returnFeed.text ++ (LineEnd.feed.text ++ body)) =
                written upper ++ last ++ [13] ++ ([10, 10] ++ body) := by
            simp [LineEnd.text, crlf]
          rw [parts]
          refine splitOutput_of_feeds ?_ ?_
          · rw [List.append_assoc, search .returns]
            simp [indexOf, blankLine, crlf]
            exact absent
          · rw [List.append_assoc, search .feeds]
            simp [indexOf, Nat.add_assoc]

theorem splitOutput_parts {output block text : Bytes}
    (split : splitOutput output = some (block, text)) :
    output = block ++ blankLine ++ text ∨
      (findFrom blankLine output 0 = none ∧ output = block ++ [10, 10] ++ text) := by
  have whole {pattern : Bytes} {position : Nat} (nonempty : pattern ≠ [])
      (found : findFrom pattern output 0 = some position) :
      output = output.take position ++ pattern ++ output.drop (position + pattern.length) := by
    rcases ((findFrom_eq_some_iff nonempty).mp found).2.1 with ⟨after, same⟩
    have rest : output.drop (position + pattern.length) = after := by
      rw [← List.drop_drop, ← same, List.drop_left]
    rw [rest, List.append_assoc, same, List.take_append_drop]
  unfold splitOutput at split
  split at split
  next position found =>
    rcases Prod.mk.inj (Option.some.inj split) with ⟨rfl, rfl⟩
    exact Or.inl (whole BlockEnd.returns.ne_nil found)
  next absent =>
    rcases Option.map_eq_some_iff.mp split with ⟨position, found, same⟩
    rcases Prod.mk.inj same with ⟨rfl, rfl⟩
    exact Or.inr ⟨absent, whole BlockEnd.feeds.ne_nil found⟩

theorem getLast?_written_concat (upper : List (Bytes × LineEnd)) (last : Bytes)
    (ending : LineEnd) : (written (upper ++ [(last, ending)])).getLast? = some 10 := by
  rw [written, List.flatMap_append, List.flatMap_singleton]
  cases ending <;> simp [LineEnd.text, crlf]

/-- A split that leaves the whole body is at the blank line. -/
theorem endsHeaders_of_splitOutput (proper : ∀ line ∈ lines, HeaderLine line.1) {block : Bytes}
    (split : splitOutput (scriptOutput lines blank body) = some (block, body)) :
    EndsHeaders lines body blank := by
  rcases splitOutput_parts split with parts | ⟨absent, parts⟩
  · have before : written lines ++ blank.text = block ++ blankLine :=
      List.append_cancel_right parts
    rcases List.eq_nil_or_concat lines with rfl | ⟨upper, ⟨last, ending⟩, rfl⟩
    · have size := congrArg List.length before
      cases blank <;> simp [written, LineEnd.text, blankLine, crlf] at size
    rw [List.concat_eq_append] at before proper ⊢
    rw [List.forall_mem_append, List.forall_mem_singleton] at proper
    cases blank with
    | feed =>
        have cut : written (upper ++ [(last, ending)]) = block ++ [13, 10] ++ [13] := by
          refine (List.append_left_inj [10]).mp ?_
          simpa [LineEnd.text, blankLine, crlf] using before
        have final := getLast?_written_concat upper last ending
        rw [cut, List.getLast?_concat] at final
        exact absurd final (by decide)
    | returnFeed =>
        have cut : written (upper ++ [(last, ending)]) = block ++ crlf := by
          refine (List.append_left_inj crlf).mp ?_
          rw [List.append_assoc]
          exact before
        cases ending with
        | returnFeed => simp [EndsHeaders]
        | feed =>
            -- the line before the blank one would end with a carriage return
            have alone : written upper ++ last = block ++ [13] := by
              refine (List.append_left_inj [10]).mp ?_
              simpa [written, LineEnd.text, crlf] using cut
            have final : last.getLast? = some 13 := by
              have ends := congrArg List.getLast? alone
              rcases proper.2.exists_cons with ⟨c, rest, same, _⟩
              dsimp only at same
              rwa [List.getLast?_concat, same, List.getLast?_append_cons, ← same] at ends
            exact absurd (List.mem_of_getLast? final) proper.2.noReturn
  · have before : written lines ++ blank.text = block ++ [10, 10] :=
      List.append_cancel_right parts
    cases blank with
    | feed =>
        refine ⟨?_, ?_⟩
        · rintro rfl
          have size := congrArg List.length before
          simp [written, LineEnd.text] at size
        · rw [findFrom_eq_none_iff BlockEnd.returns.ne_nil] at absent ⊢
          intro later _ occurs
          refine absent ((written lines ++ LineEnd.feed.text).length + later) (Nat.zero_le _) ?_
          rw [← occursAt_drop, scriptOutput, List.drop_left]
          exact occurs
    | returnFeed =>
        have unequal : written lines ++ [13] = block ++ [10] := by
          refine (List.append_left_inj [10]).mp ?_
          simpa [LineEnd.text, crlf] using before
        have final := congrArg List.getLast? unequal
        rw [List.getLast?_concat, List.getLast?_concat] at final
        exact absurd final (by decide)

/-! ## The response -/

theorem makeResponse_of_split {output block body : Bytes}
    (split : splitOutput output = some (block, body)) (disk : Disk) (server : ServerConfig) :
    makeResponse disk output server =
      (responseOf (headLines block) body).getD (ResponseFactory.error disk 500 server) := by
  rw [makeResponse, split]
  dsimp only
  rw [addLines_eq_addEach, linesOf_eq_headLines le_rfl, responseOf]
  cases addEach (headLines block) ({ status := 200 }, false) with
  | none => rfl
  | some state => rfl

theorem responseOf_eq_none_iff {lines : List Bytes} {body : Bytes} :
    responseOf lines body = none ↔ ∃ line ∈ lines, Refused line := by
  rw [responseOf, Option.map_eq_none_iff, addEach_eq_none_iff]

theorem responseOf_body {lines : List Bytes} {body : Bytes} {response : Response}
    (made : responseOf lines body = some response) : response.body = body := by
  rcases Option.map_eq_some_iff.mp made with ⟨state, _, rfl⟩
  rfl

/-- An output is refused, or makes one response on every disk. -/
theorem makeResponse_cases (output : Bytes) :
    (∀ disk server, makeResponse disk output server = ResponseFactory.error disk 500 server) ∨
      ∃ block body response, splitOutput output = some (block, body) ∧
        responseOf (headLines block) body = some response ∧
        ∀ disk server, makeResponse disk output server = response := by
  cases split : splitOutput output with
  | none =>
      left
      intro disk server
      rw [makeResponse, split]
  | some parts =>
      cases made : responseOf (headLines parts.1) parts.2 with
      | none =>
          left
          intro disk server
          rw [makeResponse_of_split split, made]
          rfl
      | some response =>
          right
          refine ⟨parts.1, parts.2, response, rfl, made, fun disk server => ?_⟩
          rw [makeResponse_of_split split, made]
          rfl

end CgiHandler

/-- A server with a page for its own faults, and the page. -/
def faultServer : ServerConfig where
  errorPages := (∅ : Std.ExtTreeMap Nat Bytes).insert 500 (ascii "/a")

def faultFiles : Disk where
  tree := (FileTree.empty {}).put [] (ascii "a") (.file (ascii "a") true)
  directory := []

theorem error_ne : ResponseFactory.error faultFiles 500 faultServer ≠
    ResponseFactory.error faultFiles 500 {} := by
  decide +kernel

namespace CgiHandler

/-- A script's header lines and its body are taken as they are exactly when the blank line
between them is the first end of a header block that is looked for. -/
theorem makeResponse_scriptOutput_iff {lines : List (Bytes × LineEnd)}
    (proper : ∀ line ∈ lines, HeaderLine line.1) (blank : LineEnd) (body : Bytes) :
    (∀ disk server, responseOf (lines.map (·.1)) body =
      some (makeResponse disk (scriptOutput lines blank body) server)) ↔
    EndsHeaders lines body blank := by
  constructor
  · intro whole
    rcases makeResponse_cases (scriptOutput lines blank body) with
      refused | ⟨block, text, response, split, made, same⟩
    · have first := whole faultFiles faultServer
      rw [whole faultFiles {}, refused, refused] at first
      exact absurd (Option.some.inj first).symm error_ne
    · have own := whole faultFiles {}
      rw [same] at own
      have body_ : text = body := (responseOf_body made).symm.trans (responseOf_body own)
      subst body_
      exact endsHeaders_of_splitOutput proper split
  · intro ends disk server
    rcases splitOutput_of_endsHeaders proper ends with ⟨block, split, cut⟩
    have accepted : responseOf (lines.map (·.1)) body ≠ none := by
      rw [ne_eq, responseOf_eq_none_iff]
      rintro ⟨line, listed, refused⟩
      rcases List.mem_map.mp listed with ⟨whole, own, rfl⟩
      exact (proper whole own).accepted refused
    rcases Option.ne_none_iff_exists'.mp accepted with ⟨response, made⟩
    rw [makeResponse_of_split split, cut, made]
    rfl

/-- A script that ends its lines with line feeds. -/
def feedLines : List (Bytes × LineEnd) := [(ascii "Content-Type: text/plain", .feed)]

theorem headerLine_feedLines : ∀ line ∈ feedLines, HeaderLine line.1 := by
  intro line listed
  rw [List.mem_singleton.mp listed]
  exact ⟨by decide, by decide, by decide⟩

theorem makeResponse_scriptOutput_iff_feeds :
    (∀ disk server, responseOf (feedLines.map (·.1)) (ascii "a") =
      some (makeResponse disk (scriptOutput feedLines .feed (ascii "a")) server)) ↔
    EndsHeaders feedLines (ascii "a") .feed :=
  makeResponse_scriptOutput_iff headerLine_feedLines .feed (ascii "a")

/-- The end of a message in the body is taken for the end of the header block, and the lines up
to it are refused. -/
theorem makeResponse_scriptOutput_cut :
    (∀ line ∈ feedLines, HeaderLine line.1) ∧
      ¬∀ disk server, responseOf (feedLines.map (·.1)) (ascii "a: b" ++ blankLine) =
        some (makeResponse disk
          (scriptOutput feedLines .feed (ascii "a: b" ++ blankLine)) server) := by
  have refused : responseOf (feedLines.map (·.1)) (ascii "a: b" ++ blankLine) ≠
      some (makeResponse faultFiles (scriptOutput feedLines .feed (ascii "a: b" ++ blankLine))
        {}) := by
    decide +kernel
  exact ⟨headerLine_feedLines, fun whole => refused (whole faultFiles {})⟩

end CgiHandler

end IrcPlatform.Webserv
