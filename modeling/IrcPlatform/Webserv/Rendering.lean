import IrcPlatform.Webserv.Lengths
import IrcPlatform.Webserv.Reordering

/-!
# Written configurations

Servers written in the syntax of the configuration, every argument in quotes, and the tokens of
the text.
-/

namespace IrcPlatform.Webserv

namespace Config

/-! ## Texts with known tokens -/

theorem closed_append {front back : Bytes} (cut : closed front = true)
    (cutBack : closed back = true) : closed (front ++ back) = true := by
  unfold closed at cut cutBack ⊢
  rw [List.foldlM_append]
  cases read : front.foldlM Tokenizer.step {} with
  | error failure => rfl
  | ok state =>
      rw [read] at cut
      simp only [Bool.and_eq_true, List.isEmpty_iff, Option.isNone_iff_eq_none,
        Bool.not_eq_true'] at cut
      rcases cut with ⟨⟨current, quote⟩, comment⟩
      have start : Tokenizer.After (state.tokens.map ConfigToken.value) state {} :=
        ⟨(List.append_nil _).symm, current, quote, comment⟩
      have later := foldlM_agree (fun _ _ c after => Tokenizer.After.step after c) back start
      have joined : (Except.ok state >>= fun state => back.foldlM Tokenizer.step state) =
          back.foldlM Tokenizer.step state := rfl
      rw [joined]
      generalize back.foldlM Tokenizer.step {} = second at later cutBack
      generalize back.foldlM Tokenizer.step state = first at later ⊢
      cases later with
      | ok after =>
          dsimp only at cutBack ⊢
          rw [after.current, after.quote, after.comment]
          exact cutBack
      | error => rfl

/-- The text may be cut at its end and has tokens with the values. -/
structure Spells (text : Bytes) (values : List Bytes) : Prop where
  cut : closed text = true
  tokens : tokenValues text = some values

instance (text : Bytes) (values : List Bytes) : Decidable (Spells text values) :=
  decidable_of_iff (closed text = true ∧ tokenValues text = some values)
    ⟨fun spells => ⟨spells.1, spells.2⟩, fun spells => ⟨spells.cut, spells.tokens⟩⟩

theorem Spells.append {front back : Bytes} {values values' : List Bytes}
    (first : Spells front values) (second : Spells back values') :
    Spells (front ++ back) (values ++ values') := by
  refine ⟨closed_append first.cut second.cut, ?_⟩
  rw [tokenValues_append first.cut, first.tokens, second.tokens]
  rfl

theorem spells_nil : Spells [] [] := ⟨rfl, rfl⟩

theorem spells_flatMap {α : Type} {text : α → Bytes} {values : α → List Bytes} {parts : List α}
    (each : ∀ part ∈ parts, Spells (text part) (values part)) :
    Spells (parts.flatMap text) (parts.flatMap values) := by
  induction parts with
  | nil => exact spells_nil
  | cons part parts ih =>
      rw [List.forall_mem_cons] at each
      exact each.1.append (ih each.2)

/-! ## Quotes -/

inductive QuoteMark where
  | double
  | single
deriving DecidableEq

def QuoteMark.byte : QuoteMark → UInt8
  | .double => IrcPlatform.byte '"'
  | .single => 39

section Quotes

variable (quote : Bytes → QuoteMark)

/-- A value in its quotes. -/
def quoted (value : Bytes) : Bytes := (quote value).byte :: value ++ [(quote value).byte]

/-- The value may stand in its quotes. -/
structure Quotable (value : Bytes) : Prop where
  plain : (quote value).byte ∉ value
  unbroken : 10 ∉ value

instance (value : Bytes) : Decidable (Quotable quote value) :=
  decidable_of_iff ((quote value).byte ∉ value ∧ 10 ∉ value)
    ⟨fun both => ⟨both.1, both.2⟩, fun quotable => ⟨quotable.plain, quotable.unbroken⟩⟩

variable {quote}

theorem foldlM_quoted {mark : UInt8} {value : Bytes} (plain : mark ∉ value)
    (unbroken : 10 ∉ value) (state : Tokenizer) (code : state.comment = false)
    (opened : state.quote = some mark) :
    value.foldlM Tokenizer.step state = .ok { state with current := state.current ++ value } := by
  induction value generalizing state with
  | nil =>
      rw [List.append_nil]
      rfl
  | cons c value ih =>
      rw [List.mem_cons, not_or] at plain unbroken
      have step : Tokenizer.step state c = .ok { state with current := state.current ++ [c] } := by
        unfold Tokenizer.step
        rw [code, opened]
        dsimp only
        rw [if_neg Bool.false_ne_true, if_neg (Ne.symm plain.1), if_neg (Ne.symm unbroken.1)]
      rw [List.foldlM_cons, step]
      have later := ih plain.2 unbroken.2 { state with current := state.current ++ [c] } code opened
      rw [List.append_assoc, List.singleton_append] at later
      exact later

/-- Whatever a value in quotes holds, it is one token. -/
theorem spells_quoted {value : Bytes} (quotable : Quotable quote value) :
    Spells (quoted quote value) [value] := by
  have opening (mark : QuoteMark) : Tokenizer.step {} mark.byte =
      .ok { quote := some mark.byte, tokenLine := 1 } := by
    cases mark with
    | double => rfl
    | single => rfl
  have closing (mark : UInt8) :
      Tokenizer.step { quote := some mark, tokenLine := 1, current := value } mark =
        .ok { tokens := [⟨value, 1⟩] } := if_pos rfl
  have inside := foldlM_quoted quotable.plain quotable.unbroken
    { quote := some (quote value).byte, tokenLine := 1 } rfl rfl
  have following : (value ++ [(quote value).byte]).foldlM Tokenizer.step
      { quote := some (quote value).byte, tokenLine := 1 } = .ok { tokens := [⟨value, 1⟩] } := by
    rw [List.foldlM_append, inside]
    exact (bind_pure _).trans (closing (quote value).byte)
  have run : (quoted quote value).foldlM Tokenizer.step {} = .ok { tokens := [⟨value, 1⟩] } := by
    rw [quoted, List.cons_append, List.foldlM_cons, opening]
    exact following
  constructor
  · unfold closed
    rw [run]
    rfl
  · rw [tokenValues_eq, run]
    rfl

end Quotes

/-! ## Blocks -/

section Blocks

variable (quote : Bytes → QuoteMark)

/-- A directive with its arguments in quotes. -/
def Directive.text (directive : Directive) : Bytes :=
  directive.name ++ ascii " " ++
    directive.args.flatMap (fun arg => quoted quote arg ++ ascii " ") ++ ascii ";\n"

def Item.text : Item → Bytes
  | .directive setting => setting.text quote
  | .location path directives =>
      ascii "location " ++ quoted quote path ++ ascii " \x7b\n" ++
        directives.flatMap (Directive.text quote) ++ ascii "\x7d\n"

def serverText (items : List Item) : Bytes :=
  ascii "server \x7b\n" ++ items.flatMap (Item.text quote) ++ ascii "\x7d\n"

structure Directive.Writable (directive : Directive) : Prop where
  name : Spells (directive.name ++ ascii " ") [directive.name]
  args : ∀ arg ∈ directive.args, Quotable quote arg

def Item.Writable : Item → Prop
  | .directive setting => setting.Writable quote
  | .location path directives =>
      Quotable quote path ∧ ∀ directive ∈ directives, directive.Writable quote

variable {quote}

theorem Directive.Writable.spells {directive : Directive} (writable : directive.Writable quote) :
    Spells (directive.text quote) directive.values := by
  have space : Spells (ascii " ") [] := by decide +kernel
  have finish : Spells (ascii ";\n") [ascii ";"] := by decide +kernel
  have args : Spells (directive.args.flatMap fun arg => quoted quote arg ++ ascii " ")
      (directive.args.flatMap fun arg => [arg]) :=
    spells_flatMap fun arg listed => (spells_quoted (writable.args arg listed)).append space
  have whole := (writable.name.append args).append finish
  rw [List.flatMap_singleton', List.singleton_append] at whole
  exact whole

theorem Item.Writable.spells {item : Item} (writable : item.Writable quote) :
    Spells (item.text quote) item.values := by
  cases item with
  | directive setting => exact Directive.Writable.spells writable
  | location path directives =>
      have keyword : Spells (ascii "location ") [ascii "location"] := by decide +kernel
      have opening : Spells (ascii " \x7b\n") [openBrace] := by decide +kernel
      have finish : Spells (ascii "\x7d\n") [closeBrace] := by decide +kernel
      have inside : Spells (directives.flatMap (Directive.text quote))
          (directives.flatMap Directive.values) :=
        spells_flatMap fun directive listed => (writable.2 directive listed).spells
      have head := (keyword.append (spells_quoted writable.1)).append opening
      exact (head.append inside).append finish

theorem spells_serverText {items : List Item} (writable : ∀ item ∈ items, item.Writable quote) :
    Spells (serverText quote items) (serverValues items) := by
  have keyword : Spells (ascii "server \x7b\n") [ascii "server", openBrace] := by decide +kernel
  have finish : Spells (ascii "\x7d\n") [closeBrace] := by decide +kernel
  have inside : Spells (items.flatMap (Item.text quote)) (items.flatMap Item.values) :=
    spells_flatMap fun item listed => (writable item listed).spells
  exact (keyword.append inside).append finish

end Blocks

end Config

end IrcPlatform.Webserv
