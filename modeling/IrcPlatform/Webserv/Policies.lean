import IrcPlatform.Webserv.SentFields

/-!
# Security policies

Every response carries each of the four policies once, unless a script spells the name of
one in two ways.
-/

namespace IrcPlatform.Webserv

open Std

/-- The field has this name, in any capitalisation. -/
def isNamed (name : Bytes) (entry : Bytes × Bytes) : Bool := lower entry.1 == name

/-- Each policy is sent once: the one that the response brings, or else the default. -/
def OnePolicy (response : Response) : Prop :=
  ∀ policy ∈ securityHeaders, ∃ sent,
    (sentFields response.serialize).filter (isNamed policy.1) = [sent] ∧
    if hasHeader response.headers policy.1 then sent ∈ response.headers.toList
    else sent = policy

/-- The fields are read back as they are, as far as policies go. -/
structure Tidy (entry : Bytes × Bytes) : Prop where
  wordly : Response.Wordly entry
  name : trim entry.1 = entry.1
  value : lower entry.1 ∈ securityHeaders.map Prod.fst → trim entry.2 = entry.2

theorem securityHeaders_spec : ∀ policy ∈ securityHeaders,
    trim policy.1 = policy.1 ∧ trim policy.2 = policy.2 ∧ lower policy.1 = policy.1 ∧
      lower (trim (ascii "Content-Length")) ≠ policy.1 ∧
      lower (ascii "Connection") ≠ policy.1 ∧
      lower (ascii "Content-Type") ≠ policy.1 ∧
      (∀ name ∈ handlerNames, lower name ≠ policy.1) ∧
      securityHeaders.filter (isNamed policy.1) = [policy] := by
  decide +kernel

variable {response : Response} {policy : Bytes × Bytes}

/-- The fields of a policy on the wire are those that were written. -/
theorem filter_sentFields (tidy : ∀ entry ∈ response.headers.toList, Tidy entry)
    (known : policy ∈ securityHeaders) :
    (sentFields response.serialize).filter (isNamed policy.1) =
      response.fields.filter (isNamed policy.1) := by
  rcases securityHeaders_spec policy known with ⟨_, _, _, length, close, _⟩
  have framing : [trimmed response.lengthField, Response.closeField].filter
      (isNamed policy.1) = [] := by
    refine List.filter_eq_nil_iff.mpr fun entry listed => ?_
    rcases List.mem_cons.mp listed with rfl | last
    · simpa [isNamed, trimmed, Response.lengthField] using length
    · rw [List.mem_singleton.mp last]
      simpa [isNamed, Response.closeField] using close
  have read : ∀ entry ∈ response.fields, trim entry.1 = entry.1 ∧
      (lower entry.1 = policy.1 → trimmed entry = entry) := by
    intro entry listed
    rcases Response.mem_fields listed with added | own
    · rcases securityHeaders_spec entry added with ⟨name, value, _⟩
      exact ⟨name, fun _ => by rw [trimmed, name, value]⟩
    · have facts := tidy entry own
      refine ⟨facts.name, fun same => ?_⟩
      rw [trimmed, facts.name, facts.value (same ▸ List.mem_map_of_mem known)]
  rw [Response.sentFields_serialize fun entry own => (tidy entry own).wordly, List.filter_append,
    framing, List.append_nil, List.filter_map]
  have names : response.fields.filter (isNamed policy.1 ∘ trimmed) =
      response.fields.filter (isNamed policy.1) := by
    refine List.filter_congr fun entry listed => ?_
    rw [Function.comp_apply, isNamed, isNamed, trimmed, (read entry listed).1]
  rw [names]
  refine List.map_congr_left (g := id) (fun entry listed => ?_) |>.trans (List.map_id _)
  rcases List.mem_filter.mp listed with ⟨inFields, named⟩
  exact (read entry inFields).2 (beq_iff_eq.mp named)

/-- The fields of a policy are those that the response brings, or else the default. -/
theorem filter_fields (known : policy ∈ securityHeaders) :
    response.fields.filter (isNamed policy.1) =
      if hasHeader response.headers policy.1 then
        response.headers.toList.filter (isNamed policy.1)
      else [policy] := by
  rcases securityHeaders_spec policy known with ⟨_, _, _, _, _, _, _, single⟩
  rw [Response.fields, List.filter_append, List.filter_comm, single]
  by_cases brought : hasHeader response.headers policy.1 = true
  · rw [if_pos brought, List.filter_cons_of_neg (by simpa using brought), List.filter_nil,
      List.nil_append]
  · have none_ : response.headers.toList.filter (isNamed policy.1) = [] := by
      refine List.filter_eq_nil_iff.mpr fun entry own named => brought ?_
      exact CgiHandler.hasHeader_iff.mpr ⟨entry, own, beq_iff_eq.mp named⟩
    rw [if_neg brought, List.filter_cons_of_pos (by simpa using brought), List.filter_nil, none_,
      List.append_nil]

/-- A response carries one policy of each kind when it brings none twice. -/
theorem onePolicy_iff (tidy : ∀ entry ∈ response.headers.toList, Tidy entry) :
    OnePolicy response ↔ ∀ policy ∈ securityHeaders,
      ∀ first ∈ response.headers.toList, ∀ second ∈ response.headers.toList,
        lower first.1 = policy.1 → lower second.1 = policy.1 → first = second := by
  refine forall₂_congr fun policy known => ?_
  rw [filter_sentFields tidy known, filter_fields known]
  by_cases brought : hasHeader response.headers policy.1 = true
  · simp only [brought, if_true]
    constructor
    · rintro ⟨sent, single, _⟩ first inFirst second inSecond firstNamed secondNamed
      have listed {entry : Bytes × Bytes} (own : entry ∈ response.headers.toList)
          (named : lower entry.1 = policy.1) : entry = sent := by
        rw [← List.mem_singleton, ← single]
        exact List.mem_filter.mpr ⟨own, beq_iff_eq.mpr named⟩
      rw [listed inFirst firstNamed, listed inSecond secondNamed]
    · intro same
      rcases CgiHandler.hasHeader_iff.mp brought with ⟨sent, own, named⟩
      refine ⟨sent, ?_, own⟩
      have inFilter : sent ∈ response.headers.toList.filter (isNamed policy.1) :=
        List.mem_filter.mpr ⟨own, beq_iff_eq.mpr named⟩
      have all : ∀ entry ∈ response.headers.toList.filter (isNamed policy.1), entry = sent := by
        intro entry listed
        rcases List.mem_filter.mp listed with ⟨other, alike⟩
        exact same entry other sent own (beq_iff_eq.mp alike) named
      have once := (nodup_toList response.headers).filter (isNamed policy.1)
      have copies := List.eq_replicate_of_mem all
      rw [copies, List.nodup_replicate] at once
      have length := Nat.le_antisymm once (List.length_pos_of_mem inFilter)
      rw [copies, length, List.replicate_one]
  · simp only [brought]
    refine iff_of_true ⟨policy, rfl, rfl⟩ ?_
    intro first inFirst _ _ named
    exact absurd (CgiHandler.hasHeader_iff.mpr ⟨first, inFirst, named⟩) brought

/-! ## Everything that is answered -/

/-- The fields of handlers are read back as they are, and none of them is a policy. -/
theorem onePolicy_of_handlerNames (wordly : ∀ entry ∈ response.headers.toList,
    Response.Wordly entry) (names : ∀ entry ∈ response.headers.toList, entry.1 ∈ handlerNames) :
    OnePolicy response := by
  have free {entry policy : Bytes × Bytes} (own : entry ∈ response.headers.toList)
      (known : policy ∈ securityHeaders) : lower entry.1 ≠ policy.1 :=
    (securityHeaders_spec policy known).2.2.2.2.2.2.1 entry.1 (names entry own)
  have trims : ∀ name ∈ handlerNames, trim name = name := by decide
  have tidy : ∀ entry ∈ response.headers.toList, Tidy entry := by
    refine fun entry own => ⟨wordly entry own, trims entry.1 (names entry own), fun named => ?_⟩
    rcases List.mem_map.mp named with ⟨policy, known, same⟩
    exact absurd same.symm (free own known)
  refine (onePolicy_iff tidy).mpr fun policy known first own _ _ named => ?_
  exact absurd named (free own known)

theorem Response.Ordinary.onePolicy (ordinary : response.Ordinary) : OnePolicy response :=
  onePolicy_of_handlerNames (fun entry own => (ordinary entry own).clean.1)
    fun entry own => (ordinary entry own).1

namespace CgiHandler

variable {lines : List Bytes} {body : Bytes}

/-- No policy is written in two spellings. -/
def OneSpelling (lines : List Bytes) : Prop :=
  ∀ policy ∈ securityHeaders, ∀ first ∈ keptFields lines, ∀ second ∈ keptFields lines,
    lower first.1 = policy.1 → lower second.1 = policy.1 → first.1 = second.1

theorem responseOf_onePolicy_iff (plain : ∀ line ∈ lines, 10 ∉ line)
    (made : responseOf lines body = some response) :
    OnePolicy response ↔ OneSpelling lines := by
  have tidy : ∀ entry ∈ response.headers.toList, Tidy entry := by
    intro entry own
    have same := trimmed_of_mem_headers made entry own
    exact ⟨wordly_responseOf plain made entry own, congrArg Prod.fst same,
      fun _ => congrArg Prod.snd same⟩
  refine (onePolicy_iff tidy).trans (forall₂_congr fun policy known => ?_)
  have kept {entry : Bytes × Bytes} (own : entry ∈ response.headers.toList)
      (named : lower entry.1 = policy.1) : entry ∈ keptFields lines := by
    rcases (mem_headers_responseOf made).mp own with field | ⟨rfl, _⟩
    · exact mem_of_mem_lastEntries field
    · exact absurd named (securityHeaders_spec policy known).2.2.2.2.2.1
  constructor
  · intro same first inFirst second inSecond firstNamed secondNamed
    rcases exists_header_of_kept made inFirst with ⟨one, inOne, oneName⟩
    rcases exists_header_of_kept made inSecond with ⟨other, inOther, otherName⟩
    rw [← oneName] at firstNamed ⊢
    rw [← otherName] at secondNamed ⊢
    rw [same one inOne other inOther firstNamed secondNamed]
  · intro same first inFirst second inSecond firstNamed secondNamed
    exact eq_of_mem_toList inFirst inSecond (same first (kept inFirst firstNamed) second
      (kept inSecond secondNamed) firstNamed secondNamed)

end CgiHandler

namespace Occasion

variable {server : ServerConfig} {answers : Answers}

/-- A script that is not refused spells each policy in one way. -/
def OneSpelling : Occasion → Prop
  | refusal _ | request _ => True
  | script output => ∀ block body, CgiHandler.splitOutput output = some (block, body) →
      (∀ line ∈ headLines block, ¬CgiHandler.Refused line) →
      CgiHandler.OneSpelling (headLines block)

theorem makeResponse_onePolicy_iff (output : Bytes) :
    OnePolicy (CgiHandler.makeResponse answers.disk output server) ↔
      (script output).OneSpelling := by
  have refused := (ResponseFactory.error_ordinary answers.disk 500 server).onePolicy
  unfold OneSpelling
  cases split : CgiHandler.splitOutput output with
  | none =>
      rw [CgiHandler.makeResponse, split]
      refine iff_of_true refused fun block body same => ?_
      rw [split] at same
      cases same
  | some parts =>
      rw [CgiHandler.makeResponse_of_split split]
      cases made : CgiHandler.responseOf (headLines parts.1) parts.2 with
      | none =>
          rcases CgiHandler.responseOf_eq_none_iff.mp made with ⟨line, listed, bad⟩
          refine iff_of_true refused fun block body same accepted => ?_
          rcases Option.some.inj (split.symm.trans same) with rfl
          exact absurd bad (accepted line listed)
      | some response =>
          have accepted : ∀ line ∈ headLines parts.1, ¬CgiHandler.Refused line := by
            intro line listed bad
            rw [CgiHandler.responseOf_eq_none_iff.mpr ⟨line, listed, bad⟩] at made
            cases made
          refine (CgiHandler.responseOf_onePolicy_iff
            (CgiHandler.lineFeed_not_mem_headLines parts.1) made).trans ⟨?_, ?_⟩
          · intro spelled block body same _
            rcases Option.some.inj (split.symm.trans same) with rfl
            exact spelled
          · exact fun every => every parts.1 parts.2 split accepted

theorem respondTo_onePolicy (configured : server.Plain) {raw : Bytes} {response : Response}
    (built : Server.respondTo server answers (parseRequest raw server.maxBody) = some response) :
    OnePolicy response := by
  cases parsed : parseRequest raw server.maxBody with
  | ok accepted =>
      rw [parsed] at built
      rw [← Option.some.inj built]
      rcases Dispatcher.dispatch_cases answers.disk (plain_of_parseRequest parsed) configured
        answers.now answers.writes with ⟨_, same⟩ | ⟨_, ours⟩
      · rw [same]
        refine onePolicy_of_handlerNames (Dispatcher.redirect_wordly configured accepted)
          fun entry own => ?_
        rw [Dispatcher.mem_redirect.mp own]
        exact (by decide : ascii "Location" ∈ handlerNames)
      · exact ours.onePolicy
  | bad | tooLarge | versionNotSupported =>
      rw [parsed] at built
      rw [← Option.some.inj built]
      exact (ResponseFactory.error_ordinary answers.disk _ server).onePolicy
  | incomplete | outOfRange | spins =>
      rw [parsed] at built
      cases built

/-- With an accepted configuration, a response carries each policy once, unless it is that of a
script which spells one in two ways. -/
theorem response_onePolicy_iff {content : Bytes} {servers : List ServerConfig}
    (accepted : Config.parse content = .ok servers) (listed : server ∈ servers)
    {occasion : Occasion} {response : Response}
    (built : occasion.response server answers = some response) :
    OnePolicy response ↔ occasion.OneSpelling := by
  have configured := Config.parse_plain content servers accepted server listed
  cases occasion with
  | refusal status =>
      rw [← Option.some.inj built]
      exact iff_of_true (ResponseFactory.error_ordinary answers.disk status server).onePolicy
        True.intro
  | request raw => exact iff_of_true (respondTo_onePolicy configured built) True.intro
  | script output =>
      rw [← Option.some.inj built]
      exact makeResponse_onePolicy_iff output

/-- A script that writes its policy in capitals. -/
def framedScript : Occasion := script (ascii "X-Frame-Options: SAMEORIGIN\n\nhi")

theorem response_onePolicy_iff_framed : ∃ response,
    framedScript.response returnServer noFiles = some response ∧
      (OnePolicy response ↔ framedScript.OneSpelling) :=
  have accepted : Config.parse returnConf = .ok [returnServer] := by decide +kernel
  ⟨_, rfl, response_onePolicy_iff accepted List.mem_cons_self rfl⟩

/-- A script that writes its policy in two spellings. -/
def doubleScript : Occasion :=
  script (ascii "X-Frame-Options: DENY\nx-frame-options: SAMEORIGIN\n\nhi")

/-- Both policies are sent. -/
theorem response_two_policies : Config.parse returnConf = .ok [returnServer] ∧
    ∃ response, doubleScript.response returnServer noFiles = some response ∧
      ¬OnePolicy response := by
  have run : Config.parse returnConf = .ok [returnServer] ∧
      (ascii "x-frame-options", ascii "DENY") ∈ securityHeaders ∧
      ((sentFields (CgiHandler.makeResponse noFiles.disk
        (ascii "X-Frame-Options: DENY\nx-frame-options: SAMEORIGIN\n\nhi")
        returnServer).serialize).filter (isNamed (ascii "x-frame-options"))).length = 2 := by
    decide +kernel
  rcases run with ⟨accepted, known, two⟩
  refine ⟨accepted, _, rfl, fun once => ?_⟩
  rcases once _ known with ⟨sent, single, _⟩
  rw [single] at two
  cases two

end Occasion

end IrcPlatform.Webserv
