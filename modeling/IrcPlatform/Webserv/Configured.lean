import IrcPlatform.Library.Ensures
import IrcPlatform.Webserv.Config

/-!
# What an accepted configuration holds

No value of a configuration holds a line feed, because a line feed ends every token and is
refused in quotes, and the methods are those that the server knows.
-/

namespace IrcPlatform.Webserv

/-- The values of a location that come into responses. -/
structure Location.Plain (location : Location) : Prop where
  methods : ∀ method ∈ location.methods, Config.isMethod method = true
  redirect : 10 ∉ location.redirect

/-- The values of a server that come into responses. -/
structure ServerConfig.Plain (server : ServerConfig) : Prop where
  methods : ∀ method ∈ server.methods, Config.isMethod method = true
  locations : ∀ location ∈ server.locations, location.Plain

namespace Config

/-! ## Tokens -/

/-- No token holds a line feed. -/
def Unbroken (tokens : List ConfigToken) : Prop := ∀ token ∈ tokens, 10 ∉ token.value

structure Tokenizer.Plain (state : Tokenizer) : Prop where
  tokens : Unbroken state.tokens
  current : 10 ∉ state.current

theorem Unbroken.concat {tokens : List ConfigToken} (unbroken : Unbroken tokens)
    {value : Bytes} (plain : 10 ∉ value) (line : Nat) : Unbroken (tokens ++ [⟨value, line⟩]) := by
  intro token listed
  rcases List.mem_append.mp listed with early | last
  · exact unbroken token early
  · rw [List.mem_singleton.mp last]
    exact plain

namespace Tokenizer

variable {state : Tokenizer}

theorem Plain.flush (plain : state.Plain) : state.flush.Plain := by
  rw [Tokenizer.flush]
  split
  · exact plain
  · exact ⟨plain.tokens.concat plain.current _, List.not_mem_nil⟩

theorem Plain.push (plain : state.Plain) {value : Bytes} (unbroken : 10 ∉ value) (line : Nat) :
    (state.push value line).Plain :=
  ⟨plain.tokens.concat unbroken line, plain.current⟩

theorem Plain.collect (plain : state.Plain) {c : UInt8} (notFeed : c ≠ 10) :
    10 ∉ state.current ++ [c] := by
  rw [List.mem_append, List.mem_singleton, not_or]
  exact ⟨plain.current, Ne.symm notFeed⟩

theorem Plain.step (plain : state.Plain) (c : UInt8) : Ensures (state.step c) Plain := by
  rw [Tokenizer.step]
  refine .ite (fun comment => ?_) fun code => ?_
  · refine .ok ?_
    split
    · exact ⟨plain.tokens, plain.current⟩
    · exact plain
  · cases state.quote with
    | some quote =>
        refine .ite (fun closes => ?_) fun inside => .ite (fun feed => .error) fun notFeed => ?_
        · exact .ok ⟨plain.tokens.concat plain.current _, List.not_mem_nil⟩
        · exact .ok ⟨plain.tokens, plain.collect notFeed⟩
    | none =>
        refine .ite (fun hash => ?_) fun noHash => .ite (fun quotes => ?_) fun noQuote =>
          .ite (fun special => ?_) fun ordinary => .ite (fun space => ?_) fun visible => ?_
        · exact .ok ⟨plain.flush.tokens, plain.flush.current⟩
        · exact .ite (fun late => .error) fun starts => .ok ⟨plain.tokens, plain.current⟩
        · refine .ok (plain.flush.push ?_ _)
          rw [List.mem_singleton]
          rintro rfl
          exact absurd special (by decide)
        · exact .ok ⟨plain.flush.tokens, plain.flush.current⟩
        · have notFeed : c ≠ 10 := fun feed => visible (Or.inr (Or.inr (Or.inr feed)))
          exact .ok ⟨plain.tokens, plain.collect notFeed⟩

end Tokenizer

theorem tokenize_unbroken (input : Bytes) : Ensures (tokenize input) Unbroken := by
  have start : ({} : Tokenizer).Plain := ⟨fun _ listed => absurd listed List.not_mem_nil,
    List.not_mem_nil⟩
  refine (Ensures.foldlM Tokenizer.Plain (fun _ c plain => plain.step c) input start).bind ?_
  intro state plain
  cases state.quote with
  | some quote => exact .error
  | none => exact .ok plain.flush.tokens

/-! ## Arguments -/

theorem take_unbroken {tokens : Tokens} (unbroken : Unbroken tokens) :
    Ensures (take tokens) fun taken => 10 ∉ taken.1.value ∧ Unbroken taken.2 := by
  cases tokens with
  | nil => exact .error
  | cons token rest =>
      exact .ok ⟨unbroken token List.mem_cons_self,
        fun other listed => unbroken other (List.mem_cons_of_mem _ listed)⟩

theorem expect_unbroken {tokens : Tokens} (unbroken : Unbroken tokens) (value : Bytes) :
    Ensures (expect value tokens) Unbroken := by
  refine (take_unbroken unbroken).bind ?_
  intro taken plain
  exact .ite (fun _ => .ok plain.2) fun _ => .error

theorem arguments_unbroken {tokens : Tokens} (unbroken : Unbroken tokens) :
    Ensures (arguments tokens) fun taken => Unbroken taken.1 ∧ Unbroken taken.2 := by
  induction tokens with
  | nil => exact .error
  | cons token rest ih =>
      have later : Unbroken rest := fun other listed =>
        unbroken other (List.mem_cons_of_mem _ listed)
      rw [arguments]
      refine .ite (fun _ => ?_) fun _ => .ite (fun _ => .error) fun _ => ?_
      · exact .ok ⟨fun _ listed => absurd listed List.not_mem_nil, later⟩
      · refine ((ih later).mono ?_).map
        rintro ⟨args, left⟩ ⟨plain, plainLeft⟩
        exact ⟨List.forall_mem_cons.mpr ⟨unbroken token List.mem_cons_self, plain⟩, plainLeft⟩

theorem addMethods_known (args : List ConfigToken) {methods : List Bytes}
    (known : ∀ method ∈ methods, isMethod method = true) :
    Ensures (addMethods methods args) fun all => ∀ method ∈ all, isMethod method = true := by
  induction args generalizing methods with
  | nil => exact .ok known
  | cons arg rest ih =>
      rw [addMethods]
      refine .ite (fun _ => .error) fun supported => .ite (fun _ => .error) fun _ => ih ?_
      intro method listed
      rcases List.mem_append.mp listed with early | last
      · exact known method early
      · rw [List.mem_singleton.mp last]
        simpa using supported

theorem parseMethods_known (args : List ConfigToken) (line : Nat) :
    Ensures (parseMethods args line) fun all => ∀ method ∈ all, isMethod method = true := by
  rw [parseMethods]
  exact .ite (fun _ => .error) fun _ =>
    addMethods_known args fun _ listed => absurd listed List.not_mem_nil

/-! ## Locations -/

theorem locationDirective_plain {state : LocationState} (plain : state.value.Plain) (name : Bytes)
    (line : Nat) {args : List ConfigToken} (unbroken : Unbroken args) :
    Ensures (locationDirective state name line args) fun next => next.value.Plain := by
  rw [locationDirective.eq_def]
  refine .ite (fun _ => ?_) fun _ => ?_
  · exact ((parseMethods_known args line).mono fun _ known => ⟨known, plain.redirect⟩).map
  · rcases args with _ | ⟨first, _ | ⟨second, _ | ⟨third, rest⟩⟩⟩
    · exact .error
    · dsimp only
      refine .ite (fun _ => .ok ⟨plain.methods, plain.redirect⟩) fun _ =>
        .ite (fun _ => .ok ⟨plain.methods, plain.redirect⟩) fun _ =>
        .ite (fun _ => ?_) fun _ => .ite (fun _ => ?_) fun _ =>
        .ite (fun _ => .ok ⟨plain.methods, plain.redirect⟩) fun _ =>
        .ite (fun _ => ?_) fun _ => .ite (fun _ => .ok ⟨plain.methods, plain.redirect⟩) fun _ =>
        .ite (fun _ => ?_) fun _ => .error
      · exact (Ensures.trivial.mono fun _ _ => ⟨plain.methods, plain.redirect⟩).map
      · exact .ok ⟨plain.methods, unbroken first List.mem_cons_self⟩
      · exact (Ensures.trivial.mono fun _ _ => ⟨plain.methods, plain.redirect⟩).map
      · exact Ensures.trivial.bind fun _ _ => .ite (fun _ => .error) fun _ =>
          .ok ⟨plain.methods, plain.redirect⟩
    · dsimp only
      refine .ite (fun _ => ?_) fun _ => .ite (fun _ => ?_) fun _ => .error
      · exact Ensures.trivial.bind fun _ _ => .ite (fun _ => .error) fun _ =>
          .ok ⟨plain.methods, unbroken second (List.mem_cons_of_mem _ List.mem_cons_self)⟩
      · exact Ensures.trivial.bind fun _ _ => .ite (fun _ => .error) fun _ =>
          .ok ⟨plain.methods, plain.redirect⟩
    · exact .error

theorem locationDirectives_plain (fuel : Nat) {state : LocationState} (plain : state.value.Plain)
    (seen : List Bytes) {tokens : Tokens} (unbroken : Unbroken tokens) :
    Ensures (locationDirectives fuel state seen tokens) fun next =>
      next.1.value.Plain ∧ Unbroken next.2 := by
  induction fuel generalizing state seen tokens with
  | zero => exact .error
  | succ fuel ih =>
      rw [locationDirectives]
      refine (take_unbroken unbroken).bind fun taken plainTaken => ?_
      refine .ite (fun _ => .ok ⟨plain, unbroken⟩) fun _ => ?_
      refine (arguments_unbroken plainTaken.2).bind fun given plainGiven => ?_
      refine Ensures.trivial.bind fun seen _ => ?_
      refine (locationDirective_plain plain _ _ plainGiven.1).bind fun next kept => ?_
      exact ih kept seen plainGiven.2

theorem finishLocation_plain {state : LocationState} (plain : state.value.Plain) (line : Nat) :
    Ensures (finishLocation state line) fun next => next.value.Plain := by
  rw [finishLocation]
  exact .ite (fun _ => .error) fun _ => .ite (fun _ => .ok plain) fun _ =>
    .ite (fun _ => .error) fun _ => .ok ⟨plain.methods, plain.redirect⟩

theorem parseLocation_plain {tokens : Tokens} (unbroken : Unbroken tokens) :
    Ensures (parseLocation tokens) fun parsed => parsed.1.value.Plain ∧ Unbroken parsed.2 := by
  have start (path : Bytes) : Location.Plain { path := path } :=
    ⟨fun _ listed => absurd listed List.not_mem_nil, List.not_mem_nil⟩
  refine (take_unbroken unbroken).bind fun taken plainTaken => .ite (fun _ => .error) fun _ => ?_
  refine (expect_unbroken plainTaken.2 _).bind fun rest plainRest => ?_
  refine (locationDirectives_plain _ (start _) _ plainRest).bind fun read kept => ?_
  refine (expect_unbroken kept.2 _).bind fun left plainLeft => ?_
  exact ((finishLocation_plain kept.1 _).mono fun _ plain => ⟨plain, plainLeft⟩).map

/-! ## Servers -/

theorem serverDirective_known {server : ServerConfig}
    (known : ∀ method ∈ server.methods, isMethod method = true) (name : Bytes) (line : Nat)
    (args : List ConfigToken) : Ensures (serverDirective server name line args) fun next =>
      ∀ method ∈ next.methods, isMethod method = true := by
  rw [serverDirective.eq_def]
  refine .ite (fun _ => (parseMethods_known args line).map) fun _ => ?_
  rcases args with _ | ⟨first, _ | ⟨second, _ | ⟨third, rest⟩⟩⟩
  · exact .error
  · dsimp only
    refine .ite (fun _ => ?_) fun _ => .ite (fun _ => .ok known) fun _ =>
      .ite (fun _ => .ok known) fun _ => .ite (fun _ => ?_) fun _ =>
      .ite (fun _ => ?_) fun _ => .error
    · rw [parseListen]
      exact .ite (fun _ => .error) fun _ => Ensures.trivial.bind fun _ _ =>
        .ite (fun _ => .error) fun _ => .ok known
    · exact Ensures.trivial.bind fun _ _ => .ite (fun _ => .error) fun _ => .ok known
    · exact (Ensures.trivial.mono fun _ _ => known).map
  · dsimp only
    exact .ite (fun _ => Ensures.trivial.bind fun _ _ => .ite (fun _ => .error) fun _ =>
      .ite (fun _ => .error) fun _ => .ok known) fun _ => .error
  · exact .error

/-- What is read of a server so far. -/
structure ServerState.Plain (state : ServerState) : Prop where
  methods : ∀ method ∈ state.server.methods, isMethod method = true
  locations : ∀ location ∈ state.locations, location.value.Plain

theorem serverDirectives_plain (fuel : Nat) {state : ServerState} (plain : state.Plain)
    {tokens : Tokens} (unbroken : Unbroken tokens) :
    Ensures (serverDirectives fuel state tokens) fun next => next.1.Plain ∧ Unbroken next.2 := by
  induction fuel generalizing state tokens with
  | zero => exact .error
  | succ fuel ih =>
      rw [serverDirectives]
      refine (take_unbroken unbroken).bind fun taken plainTaken => ?_
      refine .ite (fun _ => .ok ⟨plain, unbroken⟩) fun _ => .ite (fun _ => ?_) fun _ => ?_
      · refine (parseLocation_plain plainTaken.2).bind fun parsed kept => ?_
        have longer : ServerState.Plain
            { state with locations := state.locations ++ [parsed.1] } := by
          refine ⟨plain.methods, ?_⟩
          intro location listed
          rcases List.mem_append.mp listed with early | last
          · exact plain.locations location early
          · rw [List.mem_singleton.mp last]
            exact kept.1
        exact ih longer kept.2
      · refine (arguments_unbroken plainTaken.2).bind fun given plainGiven => ?_
        refine Ensures.trivial.bind fun seen _ => ?_
        refine (serverDirective_known plain.methods _ _ _).bind fun next known => ?_
        have changed : ServerState.Plain { state with server := next, seen := seen } :=
          ⟨known, plain.locations⟩
        exact ih changed plainGiven.2

theorem inherit_plain {server : ServerConfig}
    (known : ∀ method ∈ server.methods, isMethod method = true) {state : LocationState}
    (plain : state.value.Plain) : (inherit server state).Plain := by
  constructor
  · rw [inherit]
    dsimp only
    split
    · exact plain.methods
    · exact known
  · exact plain.redirect

theorem parseServer_plain {tokens : Tokens} (unbroken : Unbroken tokens) :
    Ensures (parseServer tokens) fun parsed => parsed.1.Plain ∧ Unbroken parsed.2 := by
  have start : ServerState.Plain {} := by
    refine ⟨?_, fun _ listed => absurd listed List.not_mem_nil⟩
    intro method listed
    rw [List.mem_singleton.mp listed]
    decide
  refine (expect_unbroken unbroken _).bind fun rest plainRest => ?_
  refine (serverDirectives_plain _ start plainRest).bind fun read kept => ?_
  refine (expect_unbroken kept.2 _).bind fun left plainLeft => .ite (fun _ => .error) fun _ => ?_
  refine .ok ⟨⟨kept.1.methods, ?_⟩, plainLeft⟩
  intro location listed
  rcases List.mem_map.mp listed with ⟨state, inside, rfl⟩
  exact inherit_plain kept.1.methods (kept.1.locations state inside)

theorem parseServers_plain (fuel : Nat) {tokens : Tokens} (unbroken : Unbroken tokens) :
    Ensures (parseServers fuel tokens) fun servers => ∀ server ∈ servers, server.Plain := by
  induction fuel generalizing tokens with
  | zero => exact .ok fun _ listed => absurd listed List.not_mem_nil
  | succ fuel ih =>
      cases tokens with
      | nil => exact .ok fun _ listed => absurd listed List.not_mem_nil
      | cons keyword rest =>
          have later : Unbroken rest := fun other listed =>
            unbroken other (List.mem_cons_of_mem _ listed)
          rw [parseServers]
          refine .ite (fun _ => .error) fun _ => ?_
          refine (parseServer_plain later).bind fun parsed kept => ?_
          exact ((ih kept.2).mono fun servers plain =>
            List.forall_mem_cons.mpr ⟨kept.1, plain⟩).map

/-- The servers of an accepted configuration. -/
theorem parse_plain (content : Bytes) :
    Ensures (parse content) fun servers => ∀ server ∈ servers, server.Plain := by
  refine (tokenize_unbroken content).bind fun tokens unbroken => ?_
  refine (parseServers_plain _ unbroken).bind fun servers plain => ?_
  exact .ite (fun _ => .error) fun _ => .ite (fun _ => .error) fun _ => .ok plain

end Config

end IrcPlatform.Webserv
