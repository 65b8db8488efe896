import IrcPlatform.Library.Blocks
import IrcPlatform.Webserv.TokenLines

/-!
# Blocks of a configuration

The directives of a location and of a server as blocks of settings, and the parser on tokens
that such blocks are written with.
-/

namespace IrcPlatform.Webserv

namespace Config

/-! ## Syntax -/

structure Directive where
  name : Bytes
  args : List Bytes
deriving DecidableEq

/-- What stands in a server block. -/
inductive Item where
  | directive (setting : Directive)
  | location (path : Bytes) (directives : List Directive)
deriving DecidableEq

/-- The values of the tokens that a directive is written with. -/
def Directive.values (directive : Directive) : List Bytes :=
  directive.name :: directive.args ++ [ascii ";"]

def Item.values : Item → List Bytes
  | .directive setting => setting.values
  | .location path directives =>
      ascii "location" :: path :: openBrace :: directives.flatMap Directive.values ++ [closeBrace]

/-- The parser does not take a value for the end of a directive or a block. -/
def IsArgument (value : Bytes) : Prop :=
  value ≠ ascii ";" ∧ value ≠ openBrace ∧ value ≠ closeBrace

instance (value : Bytes) : Decidable (IsArgument value) := inferInstanceAs (Decidable (_ ∧ _))

/-- One directive to the parser, which ends it at the first semicolon. -/
structure Directive.Proper (directive : Directive) : Prop where
  name : directive.name ≠ closeBrace
  args : ∀ arg ∈ directive.args, arg ≠ ascii ";"

instance (directive : Directive) : Decidable directive.Proper :=
  decidable_of_iff (directive.name ≠ closeBrace ∧ ∀ arg ∈ directive.args, arg ≠ ascii ";")
    ⟨fun proper => ⟨proper.1, proper.2⟩, fun proper => ⟨proper.name, proper.args⟩⟩

/-- The directive holds no brace, which the parser rejects there. -/
def Directive.Flat (directive : Directive) : Prop := ∀ arg ∈ directive.args, IsArgument arg

instance (directive : Directive) : Decidable directive.Flat :=
  inferInstanceAs (Decidable (∀ arg ∈ _, _))

/-- One item to the parser. A directive named `location` does not open a block. -/
def Item.Proper : Item → Prop
  | .directive setting => setting.Proper ∧
      (setting.name = ascii "location" → setting.args[1]? ≠ some openBrace)
  | .location _ directives => ∀ directive ∈ directives, directive.Proper

instance : (item : Item) → Decidable item.Proper
  | .directive _ => inferInstanceAs (Decidable (_ ∧ (_ → _)))
  | .location _ _ => inferInstanceAs (Decidable (∀ directive ∈ _, _))

def Item.isLocation : Item → Bool
  | .directive _ => false
  | .location _ _ => true

/-- Tokens with these values; their lines do not matter. -/
def unlined (values : List Bytes) : Tokens := values.map fun value => ⟨value, 0⟩

theorem unlined_append (front back : List Bytes) :
    unlined (front ++ back) = unlined front ++ unlined back := List.map_append

theorem unlined_cons (value : Bytes) (values : List Bytes) :
    unlined (value :: values) = ⟨value, 0⟩ :: unlined values := rfl

theorem length_unlined (values : List Bytes) : (unlined values).length = values.length :=
  List.length_map _

theorem sameValues_unlined (tokens : Tokens) :
    SameValues tokens (unlined (tokens.map ConfigToken.value)) := by
  induction tokens with
  | nil => exact .nil
  | cons token tokens ih => exact .cons rfl ih

theorem arguments_values {args : List Bytes} (proper : ∀ arg ∈ args, IsArgument arg)
    (rest : List Bytes) :
    arguments (unlined (args ++ ascii ";" :: rest)) = .ok (unlined args, unlined rest) := by
  induction args with
  | nil => rfl
  | cons arg args ih =>
      rw [List.forall_mem_cons] at proper
      rcases proper.1 with ⟨notEnd, notOpen, notClose⟩
      rw [List.cons_append, unlined_cons, arguments, if_neg notEnd,
        if_neg (not_or.mpr ⟨notOpen, notClose⟩), ih proper.2]
      rfl

/-- Arguments with a brace before the first semicolon are rejected. -/
theorem arguments_brace {args : List Bytes} (noEnd : ∀ arg ∈ args, arg ≠ ascii ";")
    (brace : ¬∀ arg ∈ args, IsArgument arg) (rest : List Bytes) :
    ∃ failure, arguments (unlined (args ++ rest)) = .error failure := by
  induction args with
  | nil => exact absurd (fun _ listed => absurd listed List.not_mem_nil) brace
  | cons arg args ih =>
      rw [List.forall_mem_cons] at noEnd brace
      rw [List.cons_append, unlined_cons, arguments, if_neg noEnd.1]
      by_cases stops : arg = openBrace ∨ arg = closeBrace
      · exact ⟨_, if_pos stops⟩
      · rw [if_neg stops]
        have flat : IsArgument arg := ⟨noEnd.1, not_or.mp stops⟩
        rcases ih noEnd.2 fun rest => brace ⟨flat, rest⟩ with ⟨failure, fails⟩
        exact ⟨failure, by rw [fails]; rfl⟩

theorem expect_values (value : Bytes) (rest : List Bytes) :
    expect value (unlined (value :: rest)) = .ok (unlined rest) := if_pos rfl

/-! ## Locations -/

/-- The directives of a location. -/
def locationBlock : Block Bytes LocationState Directive Bytes where
  key directive := locationName directive.name
  repeats name := name == ascii "cgi_handler"
  duplicate _ := ascii "duplicate directive"
  apply state directive :=
    if directive.Flat then
      locationDirective state (locationName directive.name) 0 (unlined directive.args)
    else configError 0 (ascii "expected ';'")

theorem mark_locationBlock (seen : List Bytes) (directive : Directive) (line : Nat) :
    Agree Eq (if locationName directive.name = ascii "cgi_handler" then .ok seen
        else markUnique seen (locationName directive.name) line)
      (locationBlock.mark seen directive) := by
  unfold Block.mark
  simp only [locationBlock, beq_iff_eq]
  refine .ite (fun _ => .ok rfl) fun _ => ?_
  exact .ite (fun _ => .error _ _) fun _ => .ok rfl

theorem locationDirectives_close {fuel : Nat} {state : LocationState} {seen : List Bytes}
    {token : ConfigToken} (closed : token.value = closeBrace) (rest : Tokens) :
    locationDirectives (fuel + 1) state seen (token :: rest) = .ok (state, token :: rest) :=
  if_pos closed

theorem locationDirectives_take {fuel : Nat} {state : LocationState} {seen : List Bytes}
    {token : ConfigToken} (opened : token.value ≠ closeBrace) (rest : Tokens) :
    locationDirectives (fuel + 1) state seen (token :: rest) =
      (arguments rest).bind fun (args, rest) =>
        (if locationName token.value = ascii "cgi_handler" then .ok seen
          else markUnique seen (locationName token.value) token.line).bind fun seen =>
            (locationDirective state (locationName token.value) token.line args).bind
              fun state => locationDirectives fuel state seen rest := by
  rw [locationDirectives]
  exact if_neg opened

theorem locationDirectives_cons {fuel : Nat} {state : LocationState} {seen : List Bytes}
    {directive : Directive} (proper : directive.Proper) (rest : List Bytes) :
    Agree Eq (locationDirectives (fuel + 1) state seen (unlined (directive.values ++ rest)))
      ((locationBlock.step (state, seen) directive).bind fun next =>
        locationDirectives fuel next.1 next.2 (unlined rest)) := by
  have parts : directive.values ++ rest =
      directive.name :: (directive.args ++ ascii ";" :: rest) := by
    simp [Directive.values]
  rw [parts, unlined_cons, locationDirectives_take proper.name]
  by_cases flat : directive.Flat
  · have applied : locationBlock.apply state directive =
        locationDirective state (locationName directive.name) 0 (unlined directive.args) :=
      if_pos flat
    rw [Block.step_bind, arguments_values flat, applied]
    refine (mark_locationBlock seen directive 0).bind ?_
    rintro seen _ rfl
    exact .refl eq_equivalence _
  · have rejected : ∃ failure, locationBlock.step (state, seen) directive = .error failure :=
      Block.step_error locationBlock (if_neg flat)
    rcases arguments_brace proper.args flat (ascii ";" :: rest) with ⟨failure, fails⟩
    rcases rejected with ⟨failure', rejected⟩
    rw [fails, rejected]
    exact .error failure failure'

theorem locationDirectives_values {fuel : Nat} {state : LocationState} {seen : List Bytes}
    {directives : List Directive} (proper : ∀ directive ∈ directives, directive.Proper)
    (rest : List Bytes) :
    Agree Eq (locationDirectives (fuel + directives.length) state seen
        (unlined (directives.flatMap Directive.values ++ rest)))
      ((directives.foldlM locationBlock.step (state, seen)).bind fun next =>
        locationDirectives fuel next.1 next.2 (unlined rest)) := by
  induction directives generalizing state seen with
  | nil => exact .refl eq_equivalence _
  | cons directive directives ih =>
      rw [List.forall_mem_cons] at proper
      rw [List.flatMap_cons, List.append_assoc, List.length_cons, ← Nat.add_assoc,
        List.foldlM_cons]
      refine (locationDirectives_cons proper.1 _).trans eq_equivalence ?_
      cases locationBlock.step (state, seen) directive with
      | ok next => exact ih proper.2
      | error failure => exact .error _ _

/-- What a location block means. -/
def readLocation (path : Bytes) (directives : List Directive) : Except Bytes LocationState :=
  if path.head? ≠ some (byte '/') then configError 0 (ascii "location path must start with '/'")
  else
    (directives.foldlM locationBlock.step ({ value := { path := path } }, [])).bind fun state =>
      finishLocation state.1 0

theorem length_le_values (directives : List Directive) :
    directives.length ≤ (directives.flatMap Directive.values).length := by
  induction directives with
  | nil => exact Nat.le_refl 0
  | cons directive directives ih =>
      rw [List.flatMap_cons, List.length_append, List.length_cons, Directive.values]
      simp only [List.cons_append, List.length_cons, List.length_append]
      omega

def endLocation (read : LocationState × Tokens) : Except Bytes (LocationState × Tokens) :=
  (expect closeBrace read.2).bind fun rest => (finishLocation read.1 0).map (·, rest)

/-- The rest of a location block and what follows it. -/
def closeLocation (fuel : Nat) (rest : List Bytes) (next : LocationState × List Bytes) :
    Except Bytes (LocationState × Tokens) :=
  (locationDirectives fuel next.1 next.2 (unlined rest)).bind endLocation

theorem parseLocation_opened (path : Bytes) (rest : List Bytes) :
    parseLocation (unlined (path :: openBrace :: rest)) =
      if path.head? ≠ some (byte '/') then
        configError 0 (ascii "location path must start with '/'")
      else
        (locationDirectives ((unlined rest).length + 1) { value := { path := path } } []
          (unlined rest)).bind endLocation := rfl

/-- The parser of locations on a block that need not be closed. -/
theorem parseLocation_open {path : Bytes} {directives : List Directive}
    (proper : ∀ directive ∈ directives, directive.Proper) (rest : List Bytes) :
    Agree Eq
      (parseLocation (unlined (path :: openBrace :: directives.flatMap Directive.values ++ rest)))
      (if path.head? ≠ some (byte '/') then
        configError 0 (ascii "location path must start with '/'")
      else
        (directives.foldlM locationBlock.step ({ value := { path := path } }, [])).bind
          (closeLocation ((directives.flatMap Directive.values ++ rest).length -
            directives.length + 1) rest)) := by
  have fuel : (unlined (directives.flatMap Directive.values ++ rest)).length + 1 =
      (directives.flatMap Directive.values ++ rest).length - directives.length + 1 +
        directives.length := by
    rw [length_unlined, List.length_append]
    have := length_le_values directives
    omega
  rw [List.cons_append, List.cons_append, parseLocation_opened, fuel]
  refine .ite (fun _ => .error _ _) fun _ => ?_
  refine ((locationDirectives_values proper rest).bind_same endLocation).trans eq_equivalence ?_
  rw [bind_bind]
  exact .refl eq_equivalence _

theorem parseLocation_values {path : Bytes} {directives : List Directive}
    (proper : ∀ directive ∈ directives, directive.Proper) (rest : List Bytes) :
    Agree Eq (parseLocation (unlined (path :: openBrace ::
        directives.flatMap Directive.values ++ closeBrace :: rest)))
      ((readLocation path directives).map (·, unlined rest)) := by
  refine (parseLocation_open proper _).trans eq_equivalence ?_
  unfold readLocation
  by_cases slash : path.head? = some (byte '/')
  · rw [if_neg (not_not.mpr slash), if_neg (not_not.mpr slash)]
    cases directives.foldlM locationBlock.step ({ value := { path := path } }, []) with
    | ok next => exact .refl eq_equivalence _
    | error failure => exact .error _ _
  · rw [if_pos slash, if_pos slash]
    exact .error _ _

/-! ## Servers -/

/-- The items of a server. The state holds the server and the locations so far. -/
def serverBlock : Block Bytes (ServerConfig × List LocationState) Item Bytes where
  key
    | .directive setting => commonName setting.name
    | .location _ _ => ascii "location"
  repeats name := name == ascii "error_page" || name == ascii "location"
  duplicate _ := ascii "duplicate directive"
  apply state
    | .directive setting =>
        if setting.name ≠ ascii "location" ∧ setting.Flat then
          (serverDirective state.1 (commonName setting.name) 0 (unlined setting.args)).map
            (·, state.2)
        else configError 0 (ascii "invalid server directive or arguments")
    | .location path directives =>
        (readLocation path directives).map fun location => (state.1, state.2 ++ [location])

/-- The state of the parser after items of a server. -/
def serverState (next : (ServerConfig × List LocationState) × List Bytes) : ServerState :=
  ⟨next.1.1, next.2, next.1.2⟩

theorem commonName_eq_location {name : Bytes} :
    commonName name = ascii "location" ↔ name = ascii "location" := by
  unfold commonName
  split
  next same => exact iff_of_false (by decide) (by rw [same]; decide)
  next =>
    split
    next same => exact iff_of_false (by decide) (by rw [same]; decide)
    next => exact Iff.rfl

theorem mark_serverBlock (seen : List Bytes) {setting : Directive}
    (plain : setting.name ≠ ascii "location") (line : Nat) :
    Agree Eq (if commonName setting.name = ascii "error_page" then .ok seen
        else markUnique seen (commonName setting.name) line)
      (serverBlock.mark seen (.directive setting)) := by
  have other : (commonName setting.name == ascii "location") = false :=
    beq_eq_false_iff_ne.mpr fun same => plain (commonName_eq_location.mp same)
  unfold Block.mark
  simp only [serverBlock, other, Bool.or_false, beq_iff_eq]
  refine .ite (fun _ => .ok rfl) fun _ => ?_
  exact .ite (fun _ => .error _ _) fun _ => .ok rfl

theorem serverDirectives_close {fuel : Nat} {state : ServerState} {token : ConfigToken}
    (closed : token.value = closeBrace) (rest : Tokens) :
    serverDirectives (fuel + 1) state (token :: rest) = .ok (state, token :: rest) :=
  if_pos closed

theorem serverDirectives_take {fuel : Nat} {state : ServerState} {token : ConfigToken}
    (opened : token.value ≠ closeBrace) (plain : token.value ≠ ascii "location") (rest : Tokens) :
    serverDirectives (fuel + 1) state (token :: rest) =
      (arguments rest).bind fun (args, rest) =>
        (if commonName token.value = ascii "error_page" then .ok state.seen
          else markUnique state.seen (commonName token.value) token.line).bind fun seen =>
            (serverDirective state.server (commonName token.value) token.line args).bind
              fun server => serverDirectives fuel ⟨server, seen, state.locations⟩ rest := by
  rw [serverDirectives]
  exact (if_neg opened).trans (if_neg plain)

theorem serverDirectives_location {fuel : Nat} {state : ServerState} {token : ConfigToken}
    (keyword : token.value = ascii "location") (rest : Tokens) :
    serverDirectives (fuel + 1) state (token :: rest) =
      (parseLocation rest).bind fun (location, rest) =>
        serverDirectives fuel ⟨state.server, state.seen, state.locations ++ [location]⟩ rest := by
  have opened : token.value ≠ closeBrace := by
    rw [keyword]
    decide
  rw [serverDirectives]
  exact (if_neg opened).trans (if_pos keyword)

theorem parseLocation_unopened {path next : ConfigToken} (notOpen : next.value ≠ openBrace)
    (more : Tokens) : ∃ failure, parseLocation (path :: next :: more) = .error failure := by
  by_cases slash : path.value.head? = some (byte '/')
  · have unopened : ∃ failure, expect openBrace (next :: more) = .error failure :=
      ⟨_, if_neg notOpen⟩
    rcases unopened with ⟨failure, unopened⟩
    refine ⟨failure, (if_neg (not_not.mpr slash)).trans ?_⟩
    dsimp only
    rw [unopened]
    rfl
  · exact ⟨_, if_pos slash⟩

/-- A directive named `location` is rejected. -/
theorem parseLocation_directive {args : List Bytes} (noBlock : args[1]? ≠ some openBrace)
    (rest : List Bytes) :
    ∃ failure, parseLocation (unlined (args ++ ascii ";" :: rest)) = .error failure := by
  rcases args with _ | ⟨path, _ | ⟨next, args⟩⟩
  · exact ⟨_, rfl⟩
  · exact parseLocation_unopened (by decide) _
  · exact parseLocation_unopened (fun same => noBlock (congrArg some same)) _

/-- The parser rejects what the block rejects. -/
theorem serverDirectives_rejects {fuel : Nat} {state : ServerState} {setting : Directive}
    (proper : (Item.directive setting).Proper)
    (rejected : ¬(setting.name ≠ ascii "location" ∧ setting.Flat)) (rest : List Bytes) :
    ∃ failure, serverDirectives (fuel + 1) state
      (unlined (setting.name :: (setting.args ++ ascii ";" :: rest))) = .error failure := by
  rw [unlined_cons]
  by_cases named : setting.name = ascii "location"
  · rcases parseLocation_directive (proper.2 named) rest with ⟨failure, fails⟩
    rw [serverDirectives_location named, fails]
    exact ⟨failure, rfl⟩
  · have brace : ¬setting.Flat := fun flat => rejected ⟨named, flat⟩
    rcases arguments_brace proper.1.args brace (ascii ";" :: rest) with ⟨failure, fails⟩
    rw [serverDirectives_take proper.1.name named, fails]
    exact ⟨failure, rfl⟩

theorem serverDirectives_cons {fuel : Nat} {next : (ServerConfig × List LocationState) × List Bytes}
    {item : Item} (proper : item.Proper) (rest : List Bytes) :
    Agree Eq (serverDirectives (fuel + 1) (serverState next) (unlined (item.values ++ rest)))
      ((serverBlock.step next item).bind fun next =>
        serverDirectives fuel (serverState next) (unlined rest)) := by
  cases item with
  | directive setting =>
      have parts : setting.values ++ rest =
          setting.name :: (setting.args ++ ascii ";" :: rest) := by
        simp [Directive.values]
      rw [Item.values, parts]
      by_cases accepted : setting.name ≠ ascii "location" ∧ setting.Flat
      · have applied : serverBlock.apply next.1 (.directive setting) =
            (serverDirective next.1.1 (commonName setting.name) 0 (unlined setting.args)).map
              (·, next.1.2) := if_pos accepted
        rw [unlined_cons, serverDirectives_take proper.1.name accepted.1,
          arguments_values accepted.2, Block.step_bind, applied]
        refine (mark_serverBlock next.2 accepted.1 0).bind ?_
        rintro seen _ rfl
        rw [map_bind]
        exact .refl eq_equivalence _
      · have fails : ∃ failure, serverBlock.step next (.directive setting) = .error failure :=
          Block.step_error serverBlock (if_neg accepted)
        rcases fails with ⟨failure, fails⟩
        rcases serverDirectives_rejects proper accepted rest with ⟨failure', rejects⟩
        rw [fails, rejects]
        exact .error failure' failure
  | location path directives =>
      have parts : Item.values (.location path directives) ++ rest =
          ascii "location" :: (path :: openBrace ::
            directives.flatMap Directive.values ++ closeBrace :: rest) := by
        simp [Item.values]
      have marked : serverBlock.mark next.2 (.location path directives) = .ok next.2 := rfl
      have applied : serverBlock.apply next.1 (.location path directives) =
          (readLocation path directives).map
            fun location => (next.1.1, next.1.2 ++ [location]) := rfl
      rw [parts, unlined_cons, serverDirectives_location rfl, Block.step_bind, marked, applied]
      refine ((parseLocation_values proper rest).bind_same _).trans eq_equivalence ?_
      cases readLocation path directives with
      | ok location => exact .refl eq_equivalence _
      | error failure => exact .error _ _

theorem serverDirectives_values {fuel : Nat}
    {next : (ServerConfig × List LocationState) × List Bytes} {items : List Item}
    (proper : ∀ item ∈ items, item.Proper) (rest : List Bytes) :
    Agree Eq (serverDirectives (fuel + items.length) (serverState next)
        (unlined (items.flatMap Item.values ++ rest)))
      ((items.foldlM serverBlock.step next).bind fun next =>
        serverDirectives fuel (serverState next) (unlined rest)) := by
  induction items generalizing next with
  | nil => exact .refl eq_equivalence _
  | cons item items ih =>
      rw [List.forall_mem_cons] at proper
      rw [List.flatMap_cons, List.append_assoc, List.length_cons, ← Nat.add_assoc,
        List.foldlM_cons]
      refine (serverDirectives_cons proper.1 _).trans eq_equivalence ?_
      cases serverBlock.step next item with
      | ok next => exact ih proper.2
      | error failure => exact .error _ _

theorem length_le_itemValues (items : List Item) :
    items.length ≤ (items.flatMap Item.values).length := by
  induction items with
  | nil => exact Nat.le_refl 0
  | cons item items ih =>
      have written : 1 ≤ item.values.length := by
        cases item with
        | directive setting => simp [Item.values, Directive.values]
        | location path directives => simp [Item.values]
      rw [List.flatMap_cons, List.length_append, List.length_cons]
      omega

/-- What follows the directives of a server. -/
def endServer (read : ServerState × Tokens) : Except Bytes (ServerConfig × Tokens) :=
  (expect closeBrace read.2).bind fun rest =>
    if !read.1.seen.contains (ascii "listen") then
      .error (ascii "server block is missing listen directive")
    else .ok ({ read.1.server with
      locations := read.1.locations.map (inherit read.1.server) }, rest)

theorem parseServer_opened (rest : List Bytes) :
    parseServer (unlined (openBrace :: rest)) =
      (serverDirectives ((unlined rest).length + 1) (serverState (({}, []), []))
        (unlined rest)).bind endServer := rfl

/-- The parser of servers on a block that need not be closed. -/
theorem parseServer_open {items : List Item} (proper : ∀ item ∈ items, item.Proper)
    (rest : List Bytes) :
    Agree Eq (parseServer (unlined (openBrace :: items.flatMap Item.values ++ rest)))
      ((items.foldlM serverBlock.step (({}, []), [])).bind fun next =>
        (serverDirectives ((items.flatMap Item.values ++ rest).length - items.length + 1)
          (serverState next) (unlined rest)).bind endServer) := by
  have fuel : (unlined (items.flatMap Item.values ++ rest)).length + 1 =
      (items.flatMap Item.values ++ rest).length - items.length + 1 + items.length := by
    rw [length_unlined, List.length_append]
    have := length_le_itemValues items
    omega
  rw [List.cons_append, parseServer_opened, fuel]
  refine ((serverDirectives_values proper rest).bind_same endServer).trans eq_equivalence ?_
  rw [bind_bind]
  exact .refl eq_equivalence _

/-- The values of the tokens that a server is written with. -/
def serverValues (items : List Item) : List Bytes :=
  ascii "server" :: openBrace :: items.flatMap Item.values ++ [closeBrace]

/-- What a server block means. -/
def readServer (items : List Item) : Except Bytes ServerConfig :=
  (items.foldlM serverBlock.step (({}, []), [])).bind fun next =>
    if !next.2.contains (ascii "listen") then
      .error (ascii "server block is missing listen directive")
    else .ok { next.1.1 with locations := next.1.2.map (inherit next.1.1) }

theorem parseServer_values {items : List Item} (proper : ∀ item ∈ items, item.Proper)
    (rest : List Bytes) :
    Agree Eq
      (parseServer (unlined (openBrace :: items.flatMap Item.values ++ closeBrace :: rest)))
      ((readServer items).map (·, unlined rest)) := by
  refine (parseServer_open proper _).trans eq_equivalence ?_
  unfold readServer
  cases items.foldlM serverBlock.step (({}, []), []) with
  | error failure => exact .error _ _
  | ok next =>
      dsimp only [Except.bind]
      rw [unlined_cons, serverDirectives_close rfl]
      dsimp only [endServer, serverState]
      rw [← unlined_cons, expect_values]
      dsimp only [Except.bind]
      cases next.2.contains (ascii "listen") with
      | true => exact .ok rfl
      | false => exact .error _ _

theorem parseServers_server {fuel : Nat} (more : Tokens) :
    parseServers (fuel + 1) (⟨ascii "server", 0⟩ :: more) =
      (parseServer more).bind fun (server, rest) =>
        (parseServers fuel rest).map (server :: ·) := by
  rw [parseServers]
  exact if_neg (by decide)

theorem parseServers_cons {fuel : Nat} {items : List Item} (proper : ∀ item ∈ items, item.Proper)
    (rest : List Bytes) :
    Agree Eq (parseServers (fuel + 1) (unlined (serverValues items ++ rest)))
      ((readServer items).bind fun server =>
        (parseServers fuel (unlined rest)).map (server :: ·)) := by
  have parts : serverValues items ++ rest =
      ascii "server" :: (openBrace :: items.flatMap Item.values ++ closeBrace :: rest) := by
    simp [serverValues]
  rw [parts, unlined_cons, parseServers_server]
  refine ((parseServer_values proper rest).bind_same _).trans eq_equivalence ?_
  rw [map_bind]
  exact .refl eq_equivalence _

end Config

end IrcPlatform.Webserv
