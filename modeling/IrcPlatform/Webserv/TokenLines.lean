import IrcPlatform.Library.Agreement
import IrcPlatform.Webserv.Config

/-!
# Lines of tokens

The lines of the tokens come into the errors of the parser and nowhere else, and the order in
which directives have been seen does not matter.
-/

namespace IrcPlatform.Webserv

namespace Config

def SameValue (first second : ConfigToken) : Prop := first.value = second.value

/-- The same values, on any lines. -/
def SameValues (first second : Tokens) : Prop := List.Forall₂ SameValue first second

theorem agree_configError {α β : Type} {rel : α → β → Prop} (line line' : Nat)
    (message message' : Bytes) :
    Agree rel (configError line message) (configError line' message') := .error _ _

variable {token token' : ConfigToken} {tokens tokens' : Tokens} {line line' : Nat}

/-! ## Values -/

theorem parseNumber_agree (same : SameValue token token') :
    Agree Eq (parseNumber token) (parseNumber token') := by
  unfold parseNumber
  dsimp only
  rw [same]
  refine .ite (fun _ => agree_configError _ _ _ _) fun _ => ?_
  exact .ite (fun _ => agree_configError _ _ _ _) fun _ => .ok rfl

theorem parseOnOff_agree (same : SameValue token token') :
    Agree Eq (parseOnOff token) (parseOnOff token') := by
  unfold parseOnOff
  rw [same]
  refine .ite (fun _ => .ok rfl) fun _ => ?_
  exact .ite (fun _ => .ok rfl) fun _ => agree_configError _ _ _ _

theorem checkExtension_agree (same : SameValue token token') :
    Agree Eq (checkExtension token) (checkExtension token') := by
  unfold checkExtension
  rw [same]
  exact .ite (fun _ => .ok rfl) fun _ => agree_configError _ _ _ _

theorem parseListen_agree (server : ServerConfig) (same : SameValue token token') :
    Agree Eq (parseListen server token) (parseListen server token') := by
  unfold parseListen
  rw [same]
  dsimp only
  have port (value : Bytes) : SameValue ⟨value, token.line⟩ ⟨value, token'.line⟩ := rfl
  refine .ite (fun _ => agree_configError _ _ _ _) fun _ => ?_
  refine (parseNumber_agree (port _)).bind ?_
  rintro number _ rfl
  exact .ite (fun _ => agree_configError _ _ _ _) fun _ => .ok rfl

theorem addMethods_agree (methods : List Bytes) (same : SameValues tokens tokens') :
    Agree Eq (addMethods methods tokens) (addMethods methods tokens') := by
  induction same generalizing methods with
  | nil => exact .ok rfl
  | cons equal rest ih =>
      rw [addMethods, addMethods, equal]
      refine .ite (fun _ => agree_configError _ _ _ _) fun _ => ?_
      exact .ite (fun _ => agree_configError _ _ _ _) fun _ => ih _

theorem parseMethods_agree (same : SameValues tokens tokens') :
    Agree Eq (parseMethods tokens line) (parseMethods tokens' line') := by
  cases same with
  | nil => exact agree_configError _ _ _ _
  | cons equal rest => exact addMethods_agree [] (.cons equal rest)

/-! ## Tokens -/

theorem take_agree (same : SameValues tokens tokens') :
    Agree (fun first second => SameValue first.1 second.1 ∧ SameValues first.2 second.2)
      (take tokens) (take tokens') := by
  cases same with
  | nil => exact .error _ _
  | cons equal rest => exact .ok ⟨equal, rest⟩

theorem expect_agree (value : Bytes) (same : SameValues tokens tokens') :
    Agree SameValues (expect value tokens) (expect value tokens') := by
  refine (take_agree same).bind ?_
  rintro ⟨first, rest⟩ ⟨second, rest'⟩ ⟨equal, same⟩
  dsimp only at equal ⊢
  rw [equal]
  exact .ite (fun _ => .ok same) fun _ => .error _ _

theorem arguments_agree (same : SameValues tokens tokens') :
    Agree (fun first second => SameValues first.1 second.1 ∧ SameValues first.2 second.2)
      (arguments tokens) (arguments tokens') := by
  induction same with
  | nil => exact .error _ _
  | cons equal rest ih =>
      rw [arguments, arguments, equal]
      refine .ite (fun _ => .ok ⟨.nil, rest⟩) fun _ => ?_
      refine .ite (fun _ => agree_configError _ _ _ _) fun _ => ?_
      exact ih.map fun _ _ both => ⟨.cons equal both.1, both.2⟩

theorem markUnique_agree {seen seen' : List Bytes} (perm : seen.Perm seen') (name : Bytes) :
    Agree List.Perm (markUnique seen name line) (markUnique seen' name line') := by
  unfold markUnique
  rw [perm.contains_eq]
  exact .ite (fun _ => .error _ _) fun _ => .ok (perm.cons name)

/-! ## Locations -/

theorem locationDirective_agree (state : LocationState) (name : Bytes) {args args' : Tokens}
    (same : SameValues args args') :
    Agree Eq (locationDirective state name line args)
      (locationDirective state name line' args') := by
  have wrong : Agree (Eq : LocationState → LocationState → Prop)
      (configError line (ascii "invalid location directive or arguments"))
      (configError line' (ascii "invalid location directive or arguments")) :=
    agree_configError _ _ _ _
  unfold locationDirective
  dsimp only
  refine .ite (fun _ => (parseMethods_agree same).map ?_) fun _ => ?_
  · rintro methods _ rfl
    rfl
  rcases same with _ | ⟨first, _ | ⟨second, _ | ⟨third, rest⟩⟩⟩
  · exact wrong
  · dsimp only
    rw [first]
    refine .ite (fun _ => .ok rfl) fun _ => .ite (fun _ => .ok rfl) fun _ => ?_
    refine .ite (fun _ => (parseOnOff_agree first).map ?_) fun _ => ?_
    · rintro autoindex _ rfl
      rfl
    refine .ite (fun _ => .ok rfl) fun _ => .ite (fun _ => .ok rfl) fun _ => ?_
    refine .ite (fun _ => (checkExtension_agree first).map fun _ _ _ => rfl) fun _ => ?_
    refine .ite (fun _ => .ok rfl) fun _ => .ite (fun _ => ?_) fun _ => wrong
    refine (parseNumber_agree first).bind ?_
    rintro timeout _ rfl
    exact .ite (fun _ => agree_configError _ _ _ _) fun _ => .ok rfl
  · dsimp only
    rw [first, second]
    refine .ite (fun _ => (parseNumber_agree first).bind ?_) fun _ => ?_
    · rintro status _ rfl
      exact .ite (fun _ => agree_configError _ _ _ _) fun _ => .ok rfl
    refine .ite (fun _ => (checkExtension_agree first).bind fun _ _ _ => ?_) fun _ => wrong
    exact .ite (fun _ => agree_configError _ _ _ _) fun _ => .ok rfl
  · exact wrong

theorem locationDirectives_agree {fuel : Nat} {state : LocationState} {seen seen' : List Bytes}
    (perm : seen.Perm seen') (same : SameValues tokens tokens') :
    Agree (fun first second => first.1 = second.1 ∧ SameValues first.2 second.2)
      (locationDirectives fuel state seen tokens)
      (locationDirectives fuel state seen' tokens') := by
  induction fuel generalizing state seen seen' tokens tokens' with
  | zero => exact .error _ _
  | succ fuel ih =>
      rw [locationDirectives, locationDirectives]
      refine (take_agree same).bind ?_
      rintro ⟨directive, rest⟩ ⟨directive', rest'⟩ ⟨equal, following⟩
      dsimp only at equal following ⊢
      rw [equal]
      refine .ite (fun _ => .ok ⟨rfl, same⟩) fun _ => ?_
      refine (arguments_agree following).bind ?_
      rintro ⟨args, rest⟩ ⟨args', rest'⟩ ⟨given, following⟩
      dsimp only at given following ⊢
      have marked : Agree List.Perm
          (if locationName directive'.value = ascii "cgi_handler" then .ok seen
            else markUnique seen (locationName directive'.value) directive.line)
          (if locationName directive'.value = ascii "cgi_handler" then .ok seen'
            else markUnique seen' (locationName directive'.value) directive'.line) :=
        .ite (fun _ => .ok perm) fun _ => markUnique_agree perm _
      refine marked.bind fun seen seen' perm => ?_
      refine (locationDirective_agree state _ given).bind ?_
      rintro state _ rfl
      exact ih perm following

theorem finishLocation_agree (state : LocationState) :
    Agree Eq (finishLocation state line) (finishLocation state line') := by
  unfold finishLocation
  dsimp only
  refine .ite (fun _ => agree_configError _ _ _ _) fun _ => .ite (fun _ => .ok rfl) fun _ => ?_
  exact .ite (fun _ => agree_configError _ _ _ _) fun _ => .ok rfl

theorem SameValues.length_eq (same : SameValues tokens tokens') :
    tokens.length = tokens'.length :=
  List.Forall₂.length_eq same

theorem parseLocation_agree (same : SameValues tokens tokens') :
    Agree (fun first second => first.1 = second.1 ∧ SameValues first.2 second.2)
      (parseLocation tokens) (parseLocation tokens') := by
  refine (take_agree same).bind ?_
  rintro ⟨path, rest⟩ ⟨path', rest'⟩ ⟨equal, following⟩
  dsimp only at equal following ⊢
  rw [equal]
  refine .ite (fun _ => agree_configError _ _ _ _) fun _ => ?_
  refine (expect_agree _ following).bind fun rest rest' following => ?_
  rw [following.length_eq]
  refine (locationDirectives_agree (.refl []) following).bind ?_
  rintro ⟨state, rest⟩ ⟨_, rest'⟩ ⟨rfl, following⟩
  refine (expect_agree _ following).bind fun rest rest' following => ?_
  exact (finishLocation_agree state).map fun _ _ done => ⟨done, following⟩

/-! ## Servers -/

theorem serverDirective_agree (server : ServerConfig) (name : Bytes) {args args' : Tokens}
    (same : SameValues args args') :
    Agree Eq (serverDirective server name line args)
      (serverDirective server name line' args') := by
  have wrong : Agree (Eq : ServerConfig → ServerConfig → Prop)
      (configError line (ascii "invalid server directive or arguments"))
      (configError line' (ascii "invalid server directive or arguments")) :=
    agree_configError _ _ _ _
  unfold serverDirective
  refine .ite (fun _ => (parseMethods_agree same).map ?_) fun _ => ?_
  · rintro methods _ rfl
    rfl
  rcases same with _ | ⟨first, _ | ⟨second, _ | ⟨third, rest⟩⟩⟩
  · exact wrong
  · dsimp only
    refine .ite (fun _ => parseListen_agree server first) fun _ => ?_
    rw [first]
    refine .ite (fun _ => .ok rfl) fun _ => .ite (fun _ => .ok rfl) fun _ => ?_
    refine .ite (fun _ => (parseNumber_agree first).bind ?_) fun _ => ?_
    · rintro maxBody _ rfl
      exact .ite (fun _ => agree_configError _ _ _ _) fun _ => .ok rfl
    refine .ite (fun _ => (parseOnOff_agree first).map ?_) fun _ => wrong
    rintro autoindex _ rfl
    rfl
  · dsimp only
    rw [second]
    refine .ite (fun _ => (parseNumber_agree first).bind ?_) fun _ => wrong
    rintro status _ rfl
    refine .ite (fun _ => agree_configError _ _ _ _) fun _ => ?_
    exact .ite (fun _ => agree_configError _ _ _ _) fun _ => .ok rfl
  · exact wrong

/-- The same settings, and the same directives seen in any order. -/
structure SameServer (first second : ServerState) : Prop where
  server : first.server = second.server
  seen : first.seen.Perm second.seen
  locations : first.locations = second.locations

theorem serverDirectives_agree {fuel : Nat} {state state' : ServerState}
    (alike : SameServer state state') (same : SameValues tokens tokens') :
    Agree (fun first second => SameServer first.1 second.1 ∧ SameValues first.2 second.2)
      (serverDirectives fuel state tokens) (serverDirectives fuel state' tokens') := by
  induction fuel generalizing state state' tokens tokens' with
  | zero => exact .error _ _
  | succ fuel ih =>
      rw [serverDirectives, serverDirectives]
      refine (take_agree same).bind ?_
      rintro ⟨directive, rest⟩ ⟨directive', rest'⟩ ⟨equal, following⟩
      dsimp only at equal following ⊢
      rw [equal]
      refine .ite (fun _ => .ok ⟨alike, same⟩) fun _ => .ite (fun _ => ?_) fun _ => ?_
      · refine (parseLocation_agree following).bind ?_
        rintro ⟨location, rest⟩ ⟨_, rest'⟩ ⟨rfl, following⟩
        refine ih ⟨alike.server, alike.seen, ?_⟩ following
        dsimp only
        rw [alike.locations]
      · refine (arguments_agree following).bind ?_
        rintro ⟨args, rest⟩ ⟨args', rest'⟩ ⟨given, following⟩
        dsimp only at given following ⊢
        have marked : Agree List.Perm
            (if commonName directive'.value = ascii "error_page" then .ok state.seen
              else markUnique state.seen (commonName directive'.value) directive.line)
            (if commonName directive'.value = ascii "error_page" then .ok state'.seen
              else markUnique state'.seen (commonName directive'.value) directive'.line) :=
          .ite (fun _ => .ok alike.seen) fun _ => markUnique_agree alike.seen _
        refine marked.bind fun seen seen' perm => ?_
        rw [alike.server]
        refine (serverDirective_agree state'.server _ given).bind ?_
        rintro server _ rfl
        exact ih ⟨rfl, perm, alike.locations⟩ following

theorem parseServer_agree (same : SameValues tokens tokens') :
    Agree (fun first second => first.1 = second.1 ∧ SameValues first.2 second.2)
      (parseServer tokens) (parseServer tokens') := by
  refine (expect_agree _ same).bind fun rest rest' following => ?_
  rw [following.length_eq]
  refine (serverDirectives_agree ⟨rfl, .refl _, rfl⟩ following).bind ?_
  rintro ⟨state, rest⟩ ⟨state', rest'⟩ ⟨alike, following⟩
  refine (expect_agree _ following).bind fun rest rest' following => ?_
  dsimp only at alike ⊢
  rw [alike.seen.contains_eq, alike.server, alike.locations]
  exact .ite (fun _ => .error _ _) fun _ => .ok ⟨rfl, following⟩

theorem parseServers_agree {fuel : Nat} (same : SameValues tokens tokens') :
    Agree Eq (parseServers fuel tokens) (parseServers fuel tokens') := by
  induction fuel generalizing tokens tokens' with
  | zero => exact .ok rfl
  | succ fuel ih =>
      cases same with
      | nil => exact .ok rfl
      | cons equal following =>
          rw [parseServers, parseServers, equal]
          refine .ite (fun _ => agree_configError _ _ _ _) fun _ => ?_
          refine (parseServer_agree following).bind ?_
          rintro ⟨server, rest⟩ ⟨_, rest'⟩ ⟨rfl, following⟩
          refine (ih following).map ?_
          rintro servers _ rfl
          rfl

end Config

end IrcPlatform.Webserv
