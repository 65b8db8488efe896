import IrcPlatform.Webserv.DirectiveOrder

/-!
# Blocks in their context

A block that stands anywhere among tokens is read where the parser expects it, and everywhere
else the parser fails at it. Blocks with the same meaning may replace each other in any context.
-/

namespace IrcPlatform.Webserv

namespace Config

/-- Two continuations of a text that begin with the keyword of a block and mean the same to the
parser wherever it accepts them. -/
structure Alike (keyword : ConfigToken) (more more' : Tokens) : Prop where
  length : more.length = more'.length
  word : keyword.value = ascii "server" ∨ keyword.value = ascii "location"
  notArguments : ∃ failure, arguments more = .error failure
  notArguments' : ∃ failure, arguments more' = .error failure
  inServer : ∀ fuel state,
    Agree (fun first second => SameServer first.1 second.1 ∧ SameValues first.2 second.2)
      (serverDirectives fuel state (keyword :: more))
      (serverDirectives fuel state (keyword :: more'))
  atTop : ∀ fuel, Agree Eq (parseServers fuel (keyword :: more))
    (parseServers fuel (keyword :: more'))

/-- The same tokens, but for the continuation. -/
inductive Around (keyword : ConfigToken) (more more' : Tokens) : Tokens → Tokens → Prop
  | here : Around keyword more more' (keyword :: more) (keyword :: more')
  | before (token : ConfigToken) {tokens tokens' : Tokens}
      (around : Around keyword more more' tokens tokens') :
      Around keyword more more' (token :: tokens) (token :: tokens')
  | behind {tokens tokens' : Tokens} (same : SameValues tokens tokens') :
      Around keyword more more' tokens tokens'

section Context

variable {keyword : ConfigToken} {more more' tokens tokens' : Tokens}
  (alike : Alike keyword more more')

include alike

theorem Alike.no_punctuation : IsArgument keyword.value := by
  rcases alike.word with word | word
  · rw [word]
    decide
  · rw [word]
    decide

theorem Around.length_eq (around : Around keyword more more' tokens tokens') :
    tokens.length = tokens'.length := by
  induction around with
  | here => exact congrArg (· + 1) alike.length
  | before token _ ih => exact congrArg (· + 1) ih
  | behind same => exact same.length_eq

theorem arguments_keyword : (∃ failure, arguments (keyword :: more) = .error failure) ∧
    ∃ failure, arguments (keyword :: more') = .error failure := by
  have plain := alike.no_punctuation
  have read (rest : Tokens) : arguments (keyword :: rest) =
      (arguments rest).map fun found => (keyword :: found.1, found.2) := by
    rw [arguments, if_neg plain.1, if_neg (not_or.mpr plain.2)]
  rcases alike.notArguments with ⟨failure, fails⟩
  rcases alike.notArguments' with ⟨failure', fails'⟩
  rw [read, read, fails, fails']
  exact ⟨⟨failure, rfl⟩, ⟨failure', rfl⟩⟩

theorem arguments_around (around : Around keyword more more' tokens tokens') :
    Agree (fun first second => SameValues first.1 second.1 ∧
        Around keyword more more' first.2 second.2)
      (arguments tokens) (arguments tokens') := by
  induction around with
  | here =>
      rcases arguments_keyword alike with ⟨⟨failure, fails⟩, ⟨failure', fails'⟩⟩
      rw [fails, fails']
      exact .error failure failure'
  | before token around ih =>
      rw [arguments, arguments]
      refine .ite (fun _ => .ok ⟨.nil, around⟩) fun _ => .ite (fun _ => .error _ _) fun _ => ?_
      exact ih.map fun _ _ both => ⟨.cons rfl both.1, both.2⟩
  | behind same =>
      exact (arguments_agree same).mono fun _ _ both => ⟨both.1, .behind both.2⟩

theorem expect_around {value : Bytes} (brace : value = openBrace ∨ value = closeBrace)
    (around : Around keyword more more' tokens tokens') :
    Agree (Around keyword more more') (expect value tokens) (expect value tokens') := by
  cases around with
  | here =>
      have different : keyword.value ≠ value := by
        rcases brace with rfl | rfl
        · exact alike.no_punctuation.2.1
        · exact alike.no_punctuation.2.2
      exact .ite (fun same => absurd same different) fun _ => .error _ _
  | before token around => exact .ite (fun _ => .ok around) fun _ => .error _ _
  | behind same => exact (expect_agree value same).mono fun _ _ same => .behind same

theorem locationDirectives_around {fuel : Nat} {state : LocationState} {seen : List Bytes}
    (around : Around keyword more more' tokens tokens') :
    Agree (fun first second => first.1 = second.1 ∧ Around keyword more more' first.2 second.2)
      (locationDirectives fuel state seen tokens)
      (locationDirectives fuel state seen tokens') := by
  induction fuel generalizing state seen tokens tokens' with
  | zero => exact .error _ _
  | succ fuel ih =>
      cases around with
      | here =>
          rcases alike.notArguments with ⟨failure, fails⟩
          rcases alike.notArguments' with ⟨failure', fails'⟩
          have opened := alike.no_punctuation.2.2
          rw [locationDirectives_take opened, locationDirectives_take opened, fails, fails']
          exact .error failure failure'
      | before token around =>
          by_cases closed : token.value = closeBrace
          · rw [locationDirectives_close closed, locationDirectives_close closed]
            exact .ok ⟨rfl, .before token around⟩
          · rw [locationDirectives_take closed, locationDirectives_take closed]
            refine (arguments_around alike around).bind ?_
            rintro ⟨args, rest⟩ ⟨args', rest'⟩ ⟨given, around⟩
            dsimp only at given around ⊢
            refine (Agree.refl eq_equivalence _).bind ?_
            rintro seen _ rfl
            refine (locationDirective_agree state _ given).bind ?_
            rintro state _ rfl
            exact ih around
      | behind same =>
          exact (locationDirectives_agree (.refl seen) same).mono
            fun _ _ both => ⟨both.1, .behind both.2⟩

theorem parseLocation_around (around : Around keyword more more' tokens tokens') :
    Agree (fun first second => first.1 = second.1 ∧ Around keyword more more' first.2 second.2)
      (parseLocation tokens) (parseLocation tokens') := by
  cases around with
  | here =>
      have noPath : keyword.value.head? ≠ some (byte '/') := by
        rcases alike.word with word | word
        · rw [word]
          decide
        · rw [word]
          decide
      exact .ite (fun _ => .error _ _) fun path => absurd noPath path
  | before token around =>
      refine .ite (fun _ => .error _ _) fun _ => ?_
      refine (expect_around alike (Or.inl rfl) around).bind fun rest rest' around => ?_
      rw [around.length_eq alike]
      refine (locationDirectives_around alike around).bind ?_
      rintro ⟨state, rest⟩ ⟨_, rest'⟩ ⟨rfl, around⟩
      refine (expect_around alike (Or.inr rfl) around).bind fun rest rest' around => ?_
      exact (Agree.refl eq_equivalence _).map fun _ _ done => ⟨done, around⟩
  | behind same =>
      exact (parseLocation_agree same).mono fun _ _ both => ⟨both.1, .behind both.2⟩

theorem serverDirectives_around {fuel : Nat} {state : ServerState}
    (around : Around keyword more more' tokens tokens') :
    Agree (fun first second => SameServer first.1 second.1 ∧
        Around keyword more more' first.2 second.2)
      (serverDirectives fuel state tokens) (serverDirectives fuel state tokens') := by
  induction fuel generalizing state tokens tokens' with
  | zero => exact .error _ _
  | succ fuel ih =>
      cases around with
      | here =>
          exact (alike.inServer _ state).mono fun _ _ both => ⟨both.1, .behind both.2⟩
      | before token around =>
          by_cases closed : token.value = closeBrace
          · rw [serverDirectives_close closed, serverDirectives_close closed]
            exact .ok ⟨⟨rfl, .refl _, rfl⟩, .before token around⟩
          · by_cases named : token.value = ascii "location"
            · rw [serverDirectives_location named, serverDirectives_location named]
              refine (parseLocation_around alike around).bind ?_
              rintro ⟨location, rest⟩ ⟨_, rest'⟩ ⟨rfl, around⟩
              exact ih around
            · rw [serverDirectives_take closed named, serverDirectives_take closed named]
              refine (arguments_around alike around).bind ?_
              rintro ⟨args, rest⟩ ⟨args', rest'⟩ ⟨given, around⟩
              dsimp only at given around ⊢
              refine (Agree.refl eq_equivalence _).bind ?_
              rintro seen _ rfl
              refine (serverDirective_agree state.server _ given).bind ?_
              rintro server _ rfl
              exact ih around
      | behind same =>
          exact (serverDirectives_agree ⟨rfl, .refl _, rfl⟩ same).mono
            fun _ _ both => ⟨both.1, .behind both.2⟩

omit alike in
theorem endServer_agree {rel : Tokens → Tokens → Prop} {first second : ServerState × Tokens}
    (same : SameServer first.1 second.1)
    (closes : Agree rel (expect closeBrace first.2) (expect closeBrace second.2)) :
    Agree (fun first second => first.1 = second.1 ∧ rel first.2 second.2)
      (endServer first) (endServer second) := by
  refine closes.bind fun rest rest' following => ?_
  rw [same.seen.contains_eq, same.server, same.locations]
  exact .ite (fun _ => .error _ _) fun _ => .ok ⟨rfl, following⟩

theorem parseServer_around (around : Around keyword more more' tokens tokens') :
    Agree (fun first second => first.1 = second.1 ∧ Around keyword more more' first.2 second.2)
      (parseServer tokens) (parseServer tokens') := by
  refine (expect_around alike (Or.inl rfl) around).bind fun rest rest' around => ?_
  rw [around.length_eq alike]
  refine (serverDirectives_around alike around).bind fun first second both => ?_
  exact endServer_agree both.1 (expect_around alike (Or.inr rfl) both.2)

theorem parseServers_around {fuel : Nat} (around : Around keyword more more' tokens tokens') :
    Agree Eq (parseServers fuel tokens) (parseServers fuel tokens') := by
  induction fuel generalizing tokens tokens' with
  | zero => exact .ok rfl
  | succ fuel ih =>
      cases around with
      | here => exact alike.atTop _
      | before token around =>
          refine .ite (fun _ => .error _ _) fun _ => ?_
          refine (parseServer_around alike around).bind ?_
          rintro ⟨server, rest⟩ ⟨_, rest'⟩ ⟨rfl, around⟩
          refine (ih around).map ?_
          rintro servers _ rfl
          rfl
      | behind same => exact parseServers_agree same

omit alike in
theorem around_append (front : Tokens) :
    Around keyword more more' (front ++ keyword :: more) (front ++ keyword :: more') := by
  induction front with
  | nil => exact .here
  | cons token front ih => exact .before token ih

end Context

/-! ## Permuted blocks -/

theorem perm_length_flatMap {α : Type} {items items' : List α} (perm : items.Perm items')
    (values : α → List Bytes) (rest : List Bytes) :
    (items.flatMap values ++ rest).length - items.length + 1 =
      (items'.flatMap values ++ rest).length - items'.length + 1 := by
  rw [List.length_append, List.length_append, perm.length_eq, (perm.flatMap_right values).length_eq]

theorem sameValues_refl (tokens : Tokens) : SameValues tokens tokens := by
  induction tokens with
  | nil => exact .nil
  | cons token tokens ih => exact .cons rfl ih

/-- The directives of a location may stand in any order. -/
theorem parseLocation_perm {path : Bytes} {directives directives' : List Directive}
    (proper : ∀ directive ∈ directives, directive.Proper) (perm : directives.Perm directives')
    (rest : List Bytes) :
    Agree (fun first second => first.1 = second.1 ∧ SameValues first.2 second.2)
      (parseLocation (unlined (path :: openBrace :: directives.flatMap Directive.values ++ rest)))
      (parseLocation
        (unlined (path :: openBrace :: directives'.flatMap Directive.values ++ rest))) := by
  have proper' : ∀ directive ∈ directives', directive.Proper :=
    fun directive listed => proper directive (perm.mem_iff.mpr listed)
  refine Agree.between (parseLocation_open proper rest) ?_ (parseLocation_open proper' rest)
  refine .ite (fun _ => .error _ _) fun _ => ?_
  have folds := foldlM_perm Block.equivalence_same Block.step_respects perm
    (fun one _ other _ => locationBlock_commute one other) ({ value := { path := path } }, [])
  refine folds.bind ?_
  rintro ⟨state, seen⟩ ⟨_, seen'⟩ ⟨rfl, keys⟩
  dsimp only at keys
  rw [perm_length_flatMap perm]
  refine (locationDirectives_agree keys (sameValues_refl _)).bind ?_
  rintro ⟨state, rest⟩ ⟨_, rest'⟩ ⟨rfl, following⟩
  refine (expect_agree _ following).bind fun rest rest' following => ?_
  exact (Agree.refl eq_equivalence _).map fun _ _ done => ⟨done, following⟩

/-- The items of a server may stand in any order that keeps the order of its locations. -/
theorem parseServer_perm {items items' : List Item} (proper : ∀ item ∈ items, item.Proper)
    (perm : items.Perm items')
    (order : items.filter Item.isLocation = items'.filter Item.isLocation) (rest : List Bytes) :
    Agree (fun first second => first.1 = second.1 ∧ SameValues first.2 second.2)
      (parseServer (unlined (openBrace :: items.flatMap Item.values ++ rest)))
      (parseServer (unlined (openBrace :: items'.flatMap Item.values ++ rest))) := by
  have proper' : ∀ item ∈ items', item.Proper :=
    fun item listed => proper item (perm.mem_iff.mpr listed)
  have fixed : items.filter (fun item => !(!item.isLocation)) =
      items'.filter fun item => !(!item.isLocation) := by
    simpa only [Bool.not_not] using order
  have commutes : ∀ one ∈ items, ∀ other ∈ items, (!other.isLocation) = true →
      Commute Block.Same serverBlock.step one other := by
    intro one _ other _ free
    cases other with
    | directive setting =>
        exact fun state => (serverBlock_commute setting one state).symm Block.equivalence_same
    | location path directives => exact absurd free Bool.false_ne_true
  refine Agree.between (parseServer_open proper rest) ?_ (parseServer_open proper' rest)
  have folds := foldlM_reorder Block.equivalence_same Block.step_respects perm fixed commutes
    (({}, []), [])
  refine folds.bind ?_
  rintro ⟨⟨server, locations⟩, seen⟩ ⟨_, seen'⟩ ⟨rfl, keys⟩
  dsimp only at keys
  have same : SameServer (serverState ((server, locations), seen))
      (serverState ((server, locations), seen')) := ⟨rfl, keys, rfl⟩
  rw [perm_length_flatMap perm]
  refine (serverDirectives_agree same (sameValues_refl _)).bind fun first second both => ?_
  exact endServer_agree both.1 (expect_agree _ both.2)

theorem arguments_path {path : Bytes} (noEnd : path ≠ ascii ";") (more : List Bytes) :
    ∃ failure, arguments (unlined (path :: openBrace :: more)) = .error failure := by
  have noEnds : ∀ arg ∈ [path, openBrace], arg ≠ ascii ";" := by simpa using ⟨noEnd, by decide⟩
  exact arguments_brace noEnds (by simp [IsArgument]) more

theorem alike_location {path : Bytes} (noEnd : path ≠ ascii ";")
    {directives directives' : List Directive}
    (proper : ∀ directive ∈ directives, directive.Proper) (perm : directives.Perm directives')
    (rest : List Bytes) :
    Alike ⟨ascii "location", 0⟩
      (unlined (path :: openBrace :: directives.flatMap Directive.values ++ rest))
      (unlined (path :: openBrace :: directives'.flatMap Directive.values ++ rest)) where
  length := by
    have written := (perm.flatMap_right Directive.values).length_eq
    simp only [length_unlined, List.cons_append, List.length_cons, List.length_append, written]
  word := Or.inr rfl
  notArguments := arguments_path noEnd _
  notArguments' := arguments_path noEnd _
  inServer fuel state := by
    cases fuel with
    | zero => exact .error _ _
    | succ fuel =>
        rw [serverDirectives_location rfl, serverDirectives_location rfl]
        refine (parseLocation_perm proper perm rest).bind ?_
        rintro ⟨location, rest⟩ ⟨_, rest'⟩ ⟨rfl, following⟩
        exact serverDirectives_agree ⟨rfl, .refl _, rfl⟩ following
  atTop fuel := by
    cases fuel with
    | zero => exact .ok rfl
    | succ fuel =>
        have rejects (more : Tokens) :
            parseServers (fuel + 1) (⟨ascii "location", 0⟩ :: more) =
              configError 0 (ascii "expected 'server'") := by
          rw [parseServers]
          exact if_pos (by decide)
        rw [rejects, rejects]
        exact .error _ _

theorem alike_server {items items' : List Item} (proper : ∀ item ∈ items, item.Proper)
    (perm : items.Perm items')
    (order : items.filter Item.isLocation = items'.filter Item.isLocation) (rest : List Bytes) :
    Alike ⟨ascii "server", 0⟩ (unlined (openBrace :: items.flatMap Item.values ++ rest))
      (unlined (openBrace :: items'.flatMap Item.values ++ rest)) where
  length := by
    have written := (perm.flatMap_right Item.values).length_eq
    simp only [length_unlined, List.cons_append, List.length_cons, List.length_append, written]
  word := Or.inl rfl
  notArguments := ⟨_, rfl⟩
  notArguments' := ⟨_, rfl⟩
  inServer fuel state := by
    cases fuel with
    | zero => exact .error _ _
    | succ fuel =>
        have opened : ascii "server" ≠ closeBrace := by decide
        have plain : ascii "server" ≠ ascii "location" := by decide
        rw [serverDirectives_take opened plain, serverDirectives_take opened plain]
        exact .error _ _
  atTop fuel := by
    cases fuel with
    | zero => exact .ok rfl
    | succ fuel =>
        rw [parseServers_server, parseServers_server]
        refine (parseServer_perm proper perm order rest).bind ?_
        rintro ⟨server, rest⟩ ⟨_, rest'⟩ ⟨rfl, following⟩
        refine (parseServers_agree following).map ?_
        rintro servers _ rfl
        rfl

end Config

end IrcPlatform.Webserv
