import IrcPlatform.Library.Ensures
import IrcPlatform.Webserv.RoundTrip

/-!
# Accepted configurations

Whatever a configuration file looks like, the servers that are read from it can be written out
and read back: they pass the checks of the parser, and every value fits into quotes.
-/

namespace IrcPlatform.Webserv

namespace Config

/-! ## Tokens -/

/-- The value may stand in quotes of one kind. -/
def Sayable (value : Bytes) : Prop := ∃ mark, Quotable (fun _ => mark) value

/-- The value may be an argument in quotes. -/
structure Given (value : Bytes) : Prop where
  sayable : Sayable value
  argument : IsArgument value

/-- Single quotes where a value holds double ones. -/
def fittingMark (value : Bytes) : QuoteMark := if byte '"' ∈ value then .single else .double

theorem Sayable.quotable {value : Bytes} (sayable : Sayable value) :
    Quotable fittingMark value := by
  rcases sayable with ⟨mark, plain, unbroken⟩
  refine ⟨?_, unbroken⟩
  unfold fittingMark
  split
  next double =>
    cases mark with
    | double => exact absurd double plain
    | single => exact plain
  next single => exact single

theorem Quotable.sayable {quote : Bytes → QuoteMark} {value : Bytes}
    (quotable : Quotable quote value) : Sayable value :=
  ⟨quote value, quotable.plain, quotable.unbroken⟩

theorem given_words : OfWords Given where
  empty := ⟨((quotable_words fittingMark).empty).sayable, argument_words.empty⟩
  decimal value := ⟨((quotable_words fittingMark).decimal value).sayable,
    argument_words.decimal value⟩
  onOff value := ⟨((quotable_words fittingMark).onOff value).sayable, argument_words.onOff value⟩
  method method known := ⟨((quotable_words fittingMark).method method known).sayable,
    argument_words.method method known⟩

def AllSayable (tokens : List ConfigToken) : Prop := ∀ token ∈ tokens, Sayable token.value

theorem AllSayable.concat {tokens : List ConfigToken} (all : AllSayable tokens) {value : Bytes}
    (sayable : Sayable value) (line : Nat) : AllSayable (tokens ++ [⟨value, line⟩]) := by
  intro token listed
  rcases List.mem_append.mp listed with early | last
  · exact all token early
  · rw [List.mem_singleton.mp last]
    exact sayable

namespace Tokenizer

/-- Outside quotes no token holds any, and inside quotes none of their kind. -/
structure Tidy (state : Tokenizer) : Prop where
  tokens : AllSayable state.tokens
  unbroken : 10 ∉ state.current
  bare : state.quote = none → ∀ mark : QuoteMark, mark.byte ∉ state.current
  inside (c : UInt8) : state.quote = some c →
    ∃ mark : QuoteMark, mark.byte = c ∧ c ∉ state.current

variable {state : Tokenizer}

theorem Tidy.current (tidy : state.Tidy) : Sayable state.current := by
  cases quote : state.quote with
  | none => exact ⟨.double, tidy.bare quote .double, tidy.unbroken⟩
  | some c =>
      rcases tidy.inside c quote with ⟨mark, rfl, plain⟩
      exact ⟨mark, plain, tidy.unbroken⟩

theorem Tidy.flush (tidy : state.Tidy) (code : state.quote = none) :
    state.flush.Tidy ∧ state.flush.quote = none := by
  rw [Tokenizer.flush]
  split
  · exact ⟨tidy, code⟩
  · refine ⟨⟨AllSayable.concat tidy.tokens tidy.current _, List.not_mem_nil,
      fun _ _ => List.not_mem_nil, ?_⟩, code⟩
    intro c quote
    rw [code] at quote
    cases quote

theorem Tidy.of_bare {next : Tokenizer} (tokens : AllSayable next.tokens)
    (unbroken : 10 ∉ next.current) (code : next.quote = none)
    (bare : ∀ mark : QuoteMark, mark.byte ∉ next.current) : next.Tidy :=
  ⟨tokens, unbroken, fun _ => bare, fun c quote => by rw [code] at quote; cases quote⟩

theorem not_mem_concat {c d : UInt8} {value : Bytes} (plain : d ∉ value) (different : c ≠ d) :
    d ∉ value ++ [c] := by
  rw [List.mem_append, List.mem_singleton, not_or]
  exact ⟨plain, Ne.symm different⟩

theorem Tidy.step (tidy : state.Tidy) (c : UInt8) : Ensures (state.step c) Tidy := by
  rw [Tokenizer.step]
  refine .ite (fun comment => ?_) fun code => ?_
  · refine .ok ?_
    split
    · exact ⟨tidy.tokens, tidy.unbroken, tidy.bare, tidy.inside⟩
    · exact tidy
  · cases quote : state.quote with
    | some mark =>
        refine .ite (fun closes => ?_) fun inside => .ite (fun feed => .error) fun notFeed => ?_
        · exact .ok (.of_bare (AllSayable.concat tidy.tokens tidy.current _) List.not_mem_nil rfl
            fun _ => List.not_mem_nil)
        · rcases tidy.inside mark quote with ⟨kind, same, plain⟩
          refine .ok ⟨tidy.tokens, not_mem_concat tidy.unbroken notFeed, ?_, ?_⟩
          · intro none
            cases none
          · intro other opened
            rcases Option.some.inj opened with rfl
            exact ⟨kind, same, not_mem_concat plain inside⟩
    | none =>
        rcases tidy.flush quote with ⟨flushed, bare⟩
        refine .ite (fun hash => ?_) fun noHash => .ite (fun quotes => ?_) fun noQuote =>
          .ite (fun special => ?_) fun ordinary => .ite (fun space => ?_) fun visible => ?_
        · exact .ok (.of_bare flushed.tokens flushed.unbroken bare (flushed.bare bare))
        · refine .ite (fun late => .error) fun starts => .ok ⟨tidy.tokens, tidy.unbroken, ?_, ?_⟩
          · intro none
            cases none
          · intro other opened
            have empty : state.current = [] := by simpa using starts
            rcases Option.some.inj opened with rfl
            refine ⟨if c = byte '"' then .double else .single, ?_, ?_⟩
            · rcases quotes with rfl | rfl
              · rfl
              · rfl
            · rw [empty]
              exact List.not_mem_nil
        · refine .ok (.of_bare (AllSayable.concat flushed.tokens ?_ _) flushed.unbroken bare
            (flushed.bare bare))
          rcases special with rfl | rfl | rfl
          · exact ⟨.double, by decide, by decide⟩
          · exact ⟨.double, by decide, by decide⟩
          · exact ⟨.double, by decide, by decide⟩
        · exact .ok (.of_bare flushed.tokens flushed.unbroken bare (flushed.bare bare))
        · have notFeed : c ≠ 10 := fun feed => visible (Or.inr (Or.inr (Or.inr feed)))
          refine .ok (.of_bare tidy.tokens (not_mem_concat tidy.unbroken notFeed) rfl ?_)
          intro mark
          refine not_mem_concat (tidy.bare quote mark) ?_
          rintro rfl
          apply noQuote
          cases mark with
          | double => exact Or.inl rfl
          | single => exact Or.inr rfl

end Tokenizer

theorem tokenize_sayable (input : Bytes) : Ensures (tokenize input) AllSayable := by
  have start : ({} : Tokenizer).Tidy :=
    .of_bare (fun _ listed => absurd listed List.not_mem_nil) List.not_mem_nil rfl
      fun _ => List.not_mem_nil
  refine (Ensures.foldlM Tokenizer.Tidy (fun _ c tidy => tidy.step c) input start).bind ?_
  intro state tidy
  cases quote : state.quote with
  | some mark => exact .error
  | none => exact .ok (tidy.flush quote).1.tokens

/-! ## Arguments -/

theorem take_sayable {tokens : Tokens} (all : AllSayable tokens) :
    Ensures (take tokens) fun taken => Sayable taken.1.value ∧ AllSayable taken.2 := by
  cases tokens with
  | nil => exact .error
  | cons token rest =>
      rw [AllSayable, List.forall_mem_cons] at all
      exact .ok all

theorem expect_sayable {tokens : Tokens} (all : AllSayable tokens) (value : Bytes) :
    Ensures (expect value tokens) AllSayable := by
  refine (take_sayable all).bind ?_
  intro taken sayable
  exact .ite (fun _ => .ok sayable.2) fun _ => .error

theorem arguments_given {tokens : Tokens} (all : AllSayable tokens) :
    Ensures (arguments tokens) fun taken =>
      (∀ arg ∈ taken.1, Given arg.value) ∧ AllSayable taken.2 := by
  induction tokens with
  | nil => exact .error
  | cons token rest ih =>
      rw [AllSayable, List.forall_mem_cons] at all
      rw [arguments]
      refine .ite (fun _ => ?_) fun notEnd => .ite (fun _ => .error) fun noBrace => ?_
      · exact .ok ⟨fun _ listed => absurd listed List.not_mem_nil, all.2⟩
      · refine ((ih all.2).mono ?_).map
        rintro ⟨args, left⟩ ⟨given, sayable⟩
        rw [not_or] at noBrace
        exact ⟨List.forall_mem_cons.mpr ⟨⟨all.1, notEnd, noBrace⟩, given⟩, sayable⟩

/-! ## Values -/

theorem addMethods_accepted (args : List ConfigToken) {methods : List Bytes}
    (known : ∀ method ∈ methods, isMethod method = true) (distinct : methods.Nodup)
    (some : methods ≠ [] ∨ args ≠ []) : Ensures (addMethods methods args) Methods := by
  induction args generalizing methods with
  | nil => exact .ok ⟨some.resolve_right (not_not.mpr rfl), known, distinct⟩
  | cons arg rest ih =>
      rw [addMethods]
      refine .ite (fun _ => .error) fun supported => .ite (fun _ => .error) fun fresh => ?_
      refine ih ?_ ?_ (Or.inl (List.append_ne_nil_of_right_ne_nil _ (List.cons_ne_nil _ _)))
      · rw [List.forall_mem_append, List.forall_mem_singleton]
        exact ⟨known, by simpa using supported⟩
      · rw [List.nodup_append]
        refine ⟨distinct, List.nodup_singleton _, ?_⟩
        intro method listed other last same
        rw [List.mem_singleton.mp last] at same
        exact fresh (List.contains_iff_mem.mpr (same ▸ listed))

theorem parseMethods_accepted (args : List ConfigToken) (line : Nat) :
    Ensures (parseMethods args line) Methods := by
  rw [parseMethods]
  refine .ite (fun _ => .error) fun nonempty => ?_
  refine addMethods_accepted args (fun _ listed => absurd listed List.not_mem_nil)
    List.nodup_nil (Or.inr ?_)
  rintro rfl
  exact nonempty rfl

theorem checkExtension_dot (arg : ConfigToken) :
    Ensures (checkExtension arg) fun _ => arg.value.head? = some (byte '.') :=
  .ite (fun dot => .ok dot) fun _ => .error

/-- The host is written in the text. -/
theorem mem_of_mem_splitLastColon {text host : Bytes} (split : (splitLastColon text).1 = some host)
    {c : UInt8} (listed : c ∈ host) : c ∈ text := by
  unfold splitLastColon at split
  dsimp only at split
  split at split
  · rw [← Option.some.inj split, List.mem_reverse] at listed
    have within := (List.drop_sublist 1 (text.reverse.dropWhile (· != byte ':'))).trans
      (List.dropWhile_sublist _)
    exact List.mem_reverse.mp (within.subset listed)
  · cases split

theorem given_address {host : Bytes} (sayable : Sayable host) (port : Nat) :
    Given (host ++ ascii ":" ++ decimal port) := by
  rcases sayable with ⟨mark, plain, unbroken⟩
  have outside {c : UInt8} (notColon : c ≠ byte ':') (noDigit : isAsciiDigit c = false)
      (absent : c ∉ host) : c ∉ host ++ ascii ":" ++ decimal port := by
    rw [List.mem_append, List.mem_append, not_or, not_or]
    refine ⟨⟨absent, ?_⟩, ?_⟩
    · have text : ascii ":" = [byte ':'] := rfl
      rw [text, List.mem_singleton]
      exact notColon
    · intro digit
      rw [isAsciiDigit_of_mem_decimal digit] at noDigit
      cases noDigit
  constructor
  · refine ⟨mark, ?_, outside (by decide) (by decide) unbroken⟩
    cases mark with
    | double => exact outside (by decide) (by decide) plain
    | single => exact outside (by decide) (by decide) plain
  · have colon : byte ':' ∈ host ++ ascii ":" ++ decimal port := by simp [ascii]
    have other {c : UInt8} (different : byte ':' ≠ c) :
        host ++ ascii ":" ++ decimal port ≠ [c] := by
      intro same
      rw [same, List.mem_singleton] at colon
      exact different colon
    exact ⟨other (by decide), other (by decide), other (by decide)⟩

/-! ## Locations -/

/-- A directive of a location makes a change that passes the checks. -/
theorem locationDirective_change (state : LocationState) (name : Bytes) (line : Nat)
    {args : List ConfigToken} (given : ∀ arg ∈ args, Given arg.value) :
    Ensures (locationDirective state name line args) fun next => ∃ change : LocationChange,
      change.Valid ∧ (∀ value ∈ change.strings, Given value) ∧ next = change.update state := by
  have noString : ∀ value ∈ ([] : List Bytes), Given value :=
    fun _ listed => absurd listed List.not_mem_nil
  rw [locationDirective.eq_def]
  refine .ite (fun _ => ?_) fun _ => ?_
  · refine Ensures.map ((parseMethods_accepted args line).mono fun methods accepted => ?_)
    exact ⟨.methods methods, accepted, noString, rfl⟩
  rcases args with _ | ⟨first, _ | ⟨second, _ | ⟨third, rest⟩⟩⟩
  · exact .error
  · have own : ∀ value ∈ [first.value], Given value :=
      List.forall_mem_singleton.mpr (given first List.mem_cons_self)
    dsimp only
    refine .ite (fun _ => .ok ⟨.root first.value, trivial, own, rfl⟩) fun _ => ?_
    refine .ite (fun _ => .ok ⟨.index first.value, trivial, own, rfl⟩) fun _ => ?_
    refine .ite (fun _ => ?_) fun _ => ?_
    · exact .map (Ensures.trivial.mono fun autoindex _ =>
        ⟨.autoindex autoindex, trivial, noString, rfl⟩)
    refine .ite (fun _ => ?_) fun _ => ?_
    · exact .ok ⟨.redirect none first.value, fun _ code => (Option.not_mem_none _ code).elim, own,
        rfl⟩
    refine .ite (fun _ => .ok ⟨.uploadDir first.value, trivial, own, rfl⟩) fun _ => ?_
    refine .ite (fun _ => ?_) fun _ => ?_
    · exact .map ((checkExtension_dot first).mono fun _ dot =>
        ⟨.cgiExtension first.value, dot, own, rfl⟩)
    refine .ite (fun _ => .ok ⟨.cgiPath first.value, trivial, own, rfl⟩) fun _ => ?_
    refine .ite (fun _ => Ensures.trivial.bind fun timeout _ => ?_) fun _ => .error
    refine .ite (fun _ => .error) fun range => ?_
    exact .ok ⟨.cgiTimeout timeout, by dsimp only [LocationChange.Valid]; omega, noString, rfl⟩
  · rw [List.forall_mem_cons, List.forall_mem_singleton] at given
    dsimp only
    refine .ite (fun _ => Ensures.trivial.bind fun status _ => ?_) fun _ => ?_
    · refine .ite (fun _ => .error) fun range => ?_
      refine .ok ⟨.redirect (some status) second.value, ?_,
        List.forall_mem_singleton.mpr given.2, rfl⟩
      intro code same
      rw [← Option.some.inj same]
      omega
    refine .ite (fun _ => (checkExtension_dot first).bind fun _ dot => ?_) fun _ => .error
    refine .ite (fun _ => .error) fun _ => ?_
    exact .ok ⟨.cgiHandler first.value second.value, dot,
      List.forall_mem_cons.mpr ⟨given.1, List.forall_mem_singleton.mpr given.2⟩, rfl⟩
  · exact .error

end Config

theorem Location.forall_mem_strings_iff {location : Location} {holds : Bytes → Prop} :
    (∀ value ∈ location.strings, holds value) ↔
      holds location.path ∧ holds location.root ∧ holds location.index ∧
        holds location.redirect ∧ holds location.uploadDir ∧ holds location.cgiExtension ∧
        holds location.cgiPath ∧
        ∀ entry ∈ location.cgiHandlers.toList, holds entry.1 ∧ holds entry.2 := by
  unfold Location.strings
  rw [List.forall_mem_append, List.forall_mem_flatMap]
  simp only [List.forall_mem_cons, List.not_mem_nil, false_implies, implies_true, and_true,
    and_assoc]

namespace Config

/-- The directives that have been read pass the checks of the parser. -/
structure LocationState.Sound (state : LocationState) : Prop where
  path : state.value.path.head? = some (byte '/')
  methods : state.hasMethods = true → Methods state.value.methods
  redirect : 300 ≤ state.value.redirectStatus ∧ state.value.redirectStatus ≤ 399
  timeout : 1 ≤ state.value.cgiTimeout ∧ state.value.cgiTimeout ≤ 300
  handlers : ∀ entry ∈ state.value.cgiHandlers.toList, entry.1.head? = some (byte '.')
  extension : state.value.cgiExtension ≠ [] → state.value.cgiExtension.head? = some (byte '.')
  strings : ∀ value ∈ state.value.strings, Given value

theorem LocationState.Sound.start {path : Bytes} (slash : path.head? = some (byte '/'))
    (sayable : Sayable path) : LocationState.Sound { value := { path := path } } := by
  have status : 300 ≤ 301 ∧ 301 ≤ 399 := by decide
  have seconds : 1 ≤ 30 ∧ 30 ≤ 300 := by decide
  refine ⟨slash, fun unset => absurd unset Bool.false_ne_true, status, seconds,
    forall_mem_empty, fun given => absurd rfl given, Location.forall_mem_strings_iff.mpr ?_⟩
  exact ⟨⟨sayable, argument_of_head slash (by decide)⟩, given_words.empty, given_words.empty,
    given_words.empty, given_words.empty, given_words.empty, given_words.empty, forall_mem_empty⟩

theorem LocationState.Sound.update {state : LocationState} (sound : state.Sound)
    {change : LocationChange} (valid : change.Valid)
    (given : ∀ value ∈ change.strings, Given value) : (change.update state).Sound := by
  rcases sound with ⟨path, methods, redirect, timeout, handlers, extension, strings⟩
  rw [Location.forall_mem_strings_iff] at strings
  rcases strings with ⟨pathText, root, index, target, uploadDir, cgiExtension, cgiPath, entries⟩
  have own {value : Bytes} (listed : value ∈ change.strings) := given value listed
  cases change with
  | methods allowed =>
      exact ⟨path, fun _ => valid, redirect, timeout, handlers, extension,
        Location.forall_mem_strings_iff.mpr
          ⟨pathText, root, index, target, uploadDir, cgiExtension, cgiPath, entries⟩⟩
  | root value =>
      exact ⟨path, methods, redirect, timeout, handlers, extension,
        Location.forall_mem_strings_iff.mpr ⟨pathText, own List.mem_cons_self, index, target,
          uploadDir, cgiExtension, cgiPath, entries⟩⟩
  | index value =>
      exact ⟨path, methods, redirect, timeout, handlers, extension,
        Location.forall_mem_strings_iff.mpr ⟨pathText, root, own List.mem_cons_self, target,
          uploadDir, cgiExtension, cgiPath, entries⟩⟩
  | autoindex value =>
      exact ⟨path, methods, redirect, timeout, handlers, extension,
        Location.forall_mem_strings_iff.mpr
          ⟨pathText, root, index, target, uploadDir, cgiExtension, cgiPath, entries⟩⟩
  | redirect status value =>
      refine ⟨path, methods, ?_, timeout, handlers, extension,
        Location.forall_mem_strings_iff.mpr ⟨pathText, root, index, own List.mem_cons_self,
          uploadDir, cgiExtension, cgiPath, entries⟩⟩
      cases status with
      | none => exact redirect
      | some status => exact valid status rfl
  | uploadDir value =>
      exact ⟨path, methods, redirect, timeout, handlers, extension,
        Location.forall_mem_strings_iff.mpr ⟨pathText, root, index, target,
          own List.mem_cons_self, cgiExtension, cgiPath, entries⟩⟩
  | cgiExtension value =>
      exact ⟨path, methods, redirect, timeout, handlers, fun _ => valid,
        Location.forall_mem_strings_iff.mpr ⟨pathText, root, index, target, uploadDir,
          own List.mem_cons_self, cgiPath, entries⟩⟩
  | cgiPath value =>
      exact ⟨path, methods, redirect, timeout, handlers, extension,
        Location.forall_mem_strings_iff.mpr ⟨pathText, root, index, target, uploadDir,
          cgiExtension, own List.mem_cons_self, entries⟩⟩
  | cgiTimeout value =>
      exact ⟨path, methods, redirect, valid, handlers, extension,
        Location.forall_mem_strings_iff.mpr
          ⟨pathText, root, index, target, uploadDir, cgiExtension, cgiPath, entries⟩⟩
  | cgiHandler name program =>
      have added : Given name ∧ Given program :=
        ⟨own List.mem_cons_self, own (List.mem_cons_of_mem _ List.mem_cons_self)⟩
      exact ⟨path, methods, redirect, timeout, forall_mem_insert handlers valid, extension,
        Location.forall_mem_strings_iff.mpr ⟨pathText, root, index, target, uploadDir,
          cgiExtension, cgiPath, forall_mem_insert entries added⟩⟩

theorem locationDirectives_sound (fuel : Nat) {state : LocationState} (sound : state.Sound)
    (seen : List Bytes) {tokens : Tokens} (all : AllSayable tokens) :
    Ensures (locationDirectives fuel state seen tokens) fun next =>
      next.1.Sound ∧ AllSayable next.2 := by
  induction fuel generalizing state seen tokens with
  | zero => exact .error
  | succ fuel ih =>
      rw [locationDirectives]
      refine (take_sayable all).bind fun taken sayable => ?_
      refine .ite (fun _ => .ok ⟨sound, all⟩) fun _ => ?_
      refine (arguments_given sayable.2).bind fun args given => ?_
      refine Ensures.trivial.bind fun seen _ => ?_
      refine (locationDirective_change state _ _ given.1).bind ?_
      rintro next ⟨change, valid, strings, rfl⟩
      exact ih (sound.update valid strings) seen given.2

/-- The extension and its program stand together and among the handlers. -/
structure LocationState.Finished (state : LocationState) : Prop extends state.Sound where
  together : state.value.cgiExtension = [] ↔ state.value.cgiPath = []
  paired : state.value.cgiExtension ≠ [] →
    (state.value.cgiExtension, state.value.cgiPath) ∈ state.value.cgiHandlers.toList

theorem finishLocation_finished {state : LocationState} (sound : state.Sound) (line : Nat) :
    Ensures (finishLocation state line) LocationState.Finished := by
  rw [finishLocation]
  refine .ite (fun _ => .error) fun alike => ?_
  have together : state.value.cgiExtension = [] ↔ state.value.cgiPath = [] := by
    rw [bne_iff_ne, not_not] at alike
    rw [← List.isEmpty_iff, ← List.isEmpty_iff, alike]
  refine .ite (fun none => .ok ⟨sound, together, fun given => ?_⟩) fun given => ?_
  · exact absurd (List.isEmpty_iff.mp none) given
  · refine .ite (fun _ => .error) fun _ => ?_
    rw [List.isEmpty_iff] at given
    rcases Location.forall_mem_strings_iff.mp sound.strings with
      ⟨path, root, index, redirect, uploadDir, extension, program, entries⟩
    refine .ok ⟨⟨sound.path, sound.methods, sound.redirect, sound.timeout,
      forall_mem_insert sound.handlers (sound.extension given), sound.extension, ?_⟩, together,
      fun _ => mem_toList_insert.mpr (Or.inl rfl)⟩
    exact Location.forall_mem_strings_iff.mpr ⟨path, root, index, redirect, uploadDir, extension,
      program, forall_mem_insert entries ⟨extension, program⟩⟩

theorem parseLocation_finished {tokens : Tokens} (all : AllSayable tokens) :
    Ensures (parseLocation tokens) fun parsed => parsed.1.Finished ∧ AllSayable parsed.2 := by
  refine (take_sayable all).bind fun taken sayable => ?_
  refine .ite (fun _ => .error) fun slash => ?_
  refine (expect_sayable sayable.2 _).bind fun rest plain => ?_
  refine (locationDirectives_sound _ (.start (not_not.mp slash) sayable.1) _ plain).bind ?_
  intro read sound
  refine (expect_sayable sound.2 _).bind fun left sayableLeft => ?_
  exact ((finishLocation_finished sound.1 _).mono fun _ finished => ⟨finished, sayableLeft⟩).map

/-! ## Servers -/

/-- A directive of a server makes a change that passes the checks. -/
theorem serverDirective_change (server : ServerConfig) (name : Bytes) (line : Nat)
    {args : List ConfigToken} (given : ∀ arg ∈ args, Given arg.value) :
    Ensures (serverDirective server name line args) fun next => ∃ change : ServerChange,
      change.Valid ∧ (∀ value ∈ change.strings, Given value) ∧ next = change.update server := by
  have noString : ∀ value ∈ ([] : List Bytes), Given value :=
    fun _ listed => absurd listed List.not_mem_nil
  rw [serverDirective.eq_def]
  refine .ite (fun _ => ?_) fun _ => ?_
  · exact .map ((parseMethods_accepted args line).mono fun methods accepted =>
      ⟨.methods methods, accepted, noString, rfl⟩)
  rcases args with _ | ⟨first, _ | ⟨second, _ | ⟨third, rest⟩⟩⟩
  · exact .error
  · rw [List.forall_mem_singleton] at given
    have own : ∀ value ∈ [first.value], Given value := List.forall_mem_singleton.mpr given
    dsimp only
    refine .ite (fun _ => ?_) fun _ => ?_
    · rw [parseListen]
      dsimp only
      refine .ite (fun _ => .error) fun checked => Ensures.trivial.bind fun port _ => ?_
      refine .ite (fun _ => .error) fun range => ?_
      generalize named : (splitLastColon first.value).1 = before at checked ⊢
      rw [Bool.not_eq_true, Bool.or_eq_false_iff, Bool.not_eq_false'] at checked
      have sayable : Sayable (before.getD (ascii "0.0.0.0")) := by
        cases before with
        | none => exact ⟨.double, by decide, by decide⟩
        | some host =>
            rcases given.sayable with ⟨mark, plain, unbroken⟩
            exact ⟨mark, fun listed => plain (mem_of_mem_splitLastColon named listed),
              fun listed => unbroken (mem_of_mem_splitLastColon named listed)⟩
      refine .ok ⟨.listen (before.getD (ascii "0.0.0.0")) port, ⟨checked.2, by omega⟩, ?_, rfl⟩
      exact List.forall_mem_singleton.mpr (given_address sayable port)
    refine .ite (fun _ => .ok ⟨.root first.value, trivial, own, rfl⟩) fun _ => ?_
    refine .ite (fun _ => .ok ⟨.index first.value, trivial, own, rfl⟩) fun _ => ?_
    refine .ite (fun _ => Ensures.trivial.bind fun maxBody _ => ?_) fun _ => ?_
    · refine .ite (fun _ => .error) fun small => ?_
      exact .ok ⟨.maxBody maxBody, Nat.le_of_not_lt small, noString, rfl⟩
    refine .ite (fun _ => ?_) fun _ => .error
    exact .map (Ensures.trivial.mono fun autoindex _ =>
      ⟨.autoindex autoindex, trivial, noString, rfl⟩)
  · rw [List.forall_mem_cons, List.forall_mem_singleton] at given
    dsimp only
    refine .ite (fun _ => Ensures.trivial.bind fun status _ => ?_) fun _ => .error
    refine .ite (fun _ => .error) fun range => .ite (fun _ => .error) fun _ => ?_
    exact .ok ⟨.errorPage status second.value, by dsimp only [ServerChange.Valid]; omega,
      List.forall_mem_singleton.mpr given.2, rfl⟩
  · exact .error

end Config

open Config

/-- The directives of the server itself pass the checks of the parser. -/
structure ServerConfig.Sound (server : ServerConfig) : Prop where
  host : isIpv4 server.host = true
  port : 1 ≤ server.port ∧ server.port ≤ 65535
  maxBody : server.maxBody ≤ maxBodyLimit
  methods : Methods server.methods
  statuses : ∀ entry ∈ server.errorPages.toList, 300 ≤ entry.1 ∧ entry.1 ≤ 599
  address : Given server.address
  root : Given server.root
  index : Given server.index
  pages : ∀ entry ∈ server.errorPages.toList, Given entry.2

theorem ServerConfig.Sound.start : ServerConfig.Sound {} := by
  have given {value : Bytes} (sayable : Quotable (fun _ => .double) value)
      (argument : IsArgument value) : Given value := ⟨⟨.double, sayable⟩, argument⟩
  exact ⟨by decide, by decide, by decide, by decide, forall_mem_empty,
    given (by decide) (by decide), given (by decide) (by decide), given (by decide) (by decide),
    forall_mem_empty⟩

theorem ServerConfig.Sound.update {server : ServerConfig} (sound : server.Sound)
    {change : ServerChange} (valid : change.Valid) (given : ∀ value ∈ change.strings, Given value) :
    (change.update server).Sound := by
  rcases sound with ⟨host, port, maxBody, methods, statuses, address, root, index, pages⟩
  have own {value : Bytes} (listed : value ∈ change.strings) := given value listed
  cases change with
  | methods allowed =>
      exact ⟨host, port, maxBody, valid, statuses, address, root, index, pages⟩
  | listen name number =>
      exact ⟨valid.1, valid.2, maxBody, methods, statuses, own List.mem_cons_self, root, index,
        pages⟩
  | root value =>
      exact ⟨host, port, maxBody, methods, statuses, address, own List.mem_cons_self, index,
        pages⟩
  | index value =>
      exact ⟨host, port, maxBody, methods, statuses, address, root, own List.mem_cons_self,
        pages⟩
  | maxBody value => exact ⟨host, port, valid, methods, statuses, address, root, index, pages⟩
  | autoindex value =>
      exact ⟨host, port, maxBody, methods, statuses, address, root, index, pages⟩
  | errorPage status path =>
      exact ⟨host, port, maxBody, methods,
        forall_mem_insert statuses valid,
        address, root, index,
        forall_mem_insert pages (own List.mem_cons_self)⟩

/-- The server can be written out and read back. -/
structure ServerConfig.Writable (server : ServerConfig) : Prop where
  wellFormed : server.WellFormed
  strings : ∀ value ∈ server.strings, Given value

namespace Config

/-- What has been read of a server so far. -/
structure ServerState.Sound (state : ServerState) : Prop where
  server : state.server.Sound
  locations : ∀ location ∈ state.locations, location.Finished

theorem serverDirectives_sound (fuel : Nat) {state : ServerState} (sound : state.Sound)
    {tokens : Tokens} (all : AllSayable tokens) :
    Ensures (serverDirectives fuel state tokens) fun next =>
      next.1.Sound ∧ AllSayable next.2 := by
  induction fuel generalizing state tokens with
  | zero => exact .error
  | succ fuel ih =>
      rw [serverDirectives]
      refine (take_sayable all).bind fun taken sayable => ?_
      refine .ite (fun _ => .ok ⟨sound, all⟩) fun _ => .ite (fun _ => ?_) fun _ => ?_
      · refine (parseLocation_finished sayable.2).bind fun parsed finished => ?_
        have longer : ServerState.Sound
            { state with locations := state.locations ++ [parsed.1] } := by
          refine ⟨sound.server, ?_⟩
          rw [List.forall_mem_append, List.forall_mem_singleton]
          exact ⟨sound.locations, finished.1⟩
        exact ih longer finished.2
      · refine (arguments_given sayable.2).bind fun args given => ?_
        refine Ensures.trivial.bind fun seen _ => ?_
        refine (serverDirective_change state.server _ _ given.1).bind ?_
        rintro next ⟨change, valid, strings, rfl⟩
        have changed : ServerState.Sound
            { state with server := change.update state.server, seen := seen } :=
          ⟨sound.server.update valid strings, sound.locations⟩
        exact ih changed given.2

theorem inherit_writable {server : ServerConfig} (sound : server.Sound) {state : LocationState}
    (finished : state.Finished) :
    (inherit server state).WellFormed ∧
      ∀ value ∈ (inherit server state).strings, Given value := by
  rcases Location.forall_mem_strings_iff.mp finished.strings with
    ⟨path, root, index, redirect, uploadDir, extension, program, entries⟩
  constructor
  · refine ⟨finished.path, ?_, finished.redirect, finished.timeout, finished.handlers,
      finished.together, finished.paired⟩
    unfold inherit
    dsimp only
    split
    next own => exact finished.methods own
    next inherited => exact sound.methods
  · refine Location.forall_mem_strings_iff.mpr ⟨path, ?_, ?_, redirect, uploadDir, extension,
      program, entries⟩
    · unfold inherit
      dsimp only
      split
      · exact root
      · exact sound.root
    · unfold inherit
      dsimp only
      split
      · exact index
      · exact sound.index

theorem parseServer_writable {tokens : Tokens} (all : AllSayable tokens) :
    Ensures (parseServer tokens) fun parsed => parsed.1.Writable ∧ AllSayable parsed.2 := by
  have start : ServerState.Sound {} := ⟨.start, fun _ listed => absurd listed List.not_mem_nil⟩
  refine (expect_sayable all _).bind fun rest plain => ?_
  refine (serverDirectives_sound _ start plain).bind fun read sound => ?_
  refine (expect_sayable sound.2 _).bind fun left sayable => .ite (fun _ => .error) fun _ => ?_
  rcases sound.1.server with ⟨host, port, maxBody, methods, statuses, address, root, index, pages⟩
  have each : ∀ location ∈ read.1.locations.map (inherit read.1.server),
      location.WellFormed ∧ ∀ value ∈ location.strings, Given value := by
    rw [List.forall_mem_map]
    exact fun state listed => inherit_writable sound.1.server (sound.1.locations state listed)
  refine .ok ⟨⟨⟨host, port, maxBody, methods, statuses, fun location listed =>
    (each location listed).1⟩, ?_⟩, sayable⟩
  unfold ServerConfig.strings
  rw [List.forall_mem_append, List.forall_mem_append, List.forall_mem_map,
    List.forall_mem_flatMap]
  refine ⟨⟨?_, pages⟩, fun location listed => (each location listed).2⟩
  rw [List.forall_mem_cons, List.forall_mem_cons, List.forall_mem_singleton]
  exact ⟨address, root, index⟩

theorem parseServers_writable (fuel : Nat) {tokens : Tokens} (all : AllSayable tokens) :
    Ensures (parseServers fuel tokens) fun servers => ∀ server ∈ servers, server.Writable := by
  induction fuel generalizing tokens with
  | zero => exact .ok fun _ listed => absurd listed List.not_mem_nil
  | succ fuel ih =>
      cases tokens with
      | nil => exact .ok fun _ listed => absurd listed List.not_mem_nil
      | cons keyword rest =>
          rw [AllSayable, List.forall_mem_cons] at all
          rw [parseServers]
          refine .ite (fun _ => .error) fun _ => ?_
          refine (parseServer_writable all.2).bind fun parsed writable => ?_
          exact ((ih writable.2).mono fun servers rest =>
            List.forall_mem_cons.mpr ⟨writable.1, rest⟩).map

/-! ## Files -/

/-- What a configuration file can mean. -/
structure Acceptable (servers : List ServerConfig) : Prop where
  nonempty : servers ≠ []
  distinct : hasDuplicate servers = false
  writable : ∀ server ∈ servers, server.Writable

theorem parse_acceptable (content : Bytes) : Ensures (parse content) Acceptable := by
  refine (tokenize_sayable content).bind fun tokens all => ?_
  refine (parseServers_writable _ all).bind fun servers writable => ?_
  refine .ite (fun _ => .error) fun nonempty => .ite (fun _ => .error) fun distinct => ?_
  refine .ok ⟨?_, Bool.eq_false_iff.mpr distinct, writable⟩
  rintro rfl
  exact nonempty rfl

theorem Acceptable.read_back {servers : List ServerConfig} (acceptable : Acceptable servers) :
    parse (configText fittingMark servers) = .ok servers := by
  have wellFormed : ∀ server ∈ servers, server.WellFormed :=
    fun server listed => (acceptable.writable server listed).wellFormed
  have spelled : Spells (configText fittingMark servers)
      ((servers.map ServerConfig.items).flatMap serverValues) :=
    spells_configText wellFormed fun server listed value held =>
      ((acceptable.writable server listed).strings value held).sayable.quotable
  have enough : servers.length ≤
      ((servers.map ServerConfig.items).flatMap serverValues).length := by
    rw [← List.length_map ServerConfig.items]
    exact length_le_serverValues _
  have read := parseServers_written wellFormed
    (fun server listed value held =>
      ((acceptable.writable server listed).strings value held).argument) enough
  refine ((parse_of_tokenValues spelled.tokens).trans eq_equivalence ?_).eq_ok
  unfold parseValues
  refine (read.bind_same _).trans eq_equivalence ?_
  rw [ok_bind, List.isEmpty_eq_false_iff.mpr acceptable.nonempty, acceptable.distinct]
  exact .ok rfl

/-- A file means the servers exactly when their written form does, and then they pass every
check of the parser and each of their values fits into quotes. -/
theorem accepted_iff_written (servers : List ServerConfig) :
    ((∃ content, parse content = .ok servers) ↔
        parse (configText fittingMark servers) = .ok servers) ∧
      ((∃ content, parse content = .ok servers) ↔ Acceptable servers) := by
  have acceptable (accepted : ∃ content, parse content = .ok servers) : Acceptable servers := by
    rcases accepted with ⟨content, accepted⟩
    exact parse_acceptable content servers accepted
  exact ⟨⟨fun accepted => (acceptable accepted).read_back, fun written => ⟨_, written⟩⟩,
    ⟨acceptable, fun checked => ⟨_, checked.read_back⟩⟩⟩

end Config

end IrcPlatform.Webserv
