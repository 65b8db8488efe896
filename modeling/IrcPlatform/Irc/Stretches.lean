import IrcPlatform.Irc.Confirmations
import IrcPlatform.Irc.SentStream

/-!
# Stretches of steps

While a connection is neither accepted again nor sent to, its send buffer grows by whole
lines, each of them queued by one of the steps.
-/

namespace IrcPlatform.Irc

open Std

/-- The step neither accepts the descriptor nor sends to it. -/
def ServerStep.spares (fd : Int) : ServerStep → Bool
  | accept other _ | flush other _ => other != fd
  | receive _ _ | consume _ _ | command _ _ | refuse _ _ | reserve _ | takeReservations
  | disconnect _ _ => true

theorem ServerStep.spares_of_inner {step : ServerStep} (inner : step.isInner = true) (fd : Int) :
    step.spares fd = true := by
  cases step with
  | accept _ _ => simp [isInner] at inner
  | flush _ _ => simp [isInner] at inner
  | _ => rfl

namespace Server

variable {before between after : Server} {fd : Int}

/-- A step on the way from one state to another. -/
structure OnTheWay (before : Server) (step : ServerStep) (between after : Server) : Prop where
  here : stepMachine.Leads before between
  ready : between.ready step = true
  later : stepMachine.Leads (between.advance step) after

/-- A step on the way queued the line to the descriptor. -/
def QueuedBetween (before after : Server) (fd : Int) (line : Bytes) : Prop :=
  ∃ between step, OnTheWay before step between after ∧ line ∈ between.stepLines step fd

theorem QueuedBetween.of_later {step : ServerStep} (ready : before.ready step = true)
    {line : Bytes} (queued : QueuedBetween (before.advance step) after fd line) :
    QueuedBetween before after fd line := by
  rcases queued with ⟨between, later, way, listed⟩
  have first := leads_advance (Machine.Leads.refl before) step ready
  exact ⟨between, later, ⟨first.trans way.here, way.ready, way.later⟩, listed⟩

/-- The send buffer after one step that spares the connection. -/
theorem sendBuffer_of_spares (consistent : before.core.Consistent) {step : ServerStep}
    (ready : before.ready step = true) (spares : step.spares fd = true) {next : Client}
    (foundNext : (before.advance step).findClientByFd fd = some next) :
    ∃ (client : Client) (lines : List Bytes), before.findClientByFd fd = some client ∧
      next.sendBuffer = client.sendBuffer ++ lines.flatMap (· ++ crlf) ∧
      ∀ line ∈ lines, CleanText line ∧ line ∈ before.stepLines step fd := by
  rcases advance_events consistent ready with ⟨events, stepEvents⟩
  have unsent : sentBytes fd events = [] := by
    rcases sentBytes_advance ready stepEvents.history fd with silent | ⟨count, client, same, _⟩
    · exact silent
    · rw [same] at spares
      simp [ServerStep.spares] at spares
  cases found : before.findClientByFd fd with
  | none =>
      have accepting := (stepEvents.entered fd next found foundNext).2
      rcases (stepEvents.accepted fd accepting).1 with ⟨peerAddress, rfl⟩
      simp [ServerStep.spares] at spares
  | some client =>
      have buffers := stepEvents.buffers fd client next found foundNext
      rw [unsent, List.nil_append] at buffers
      have clean : ∀ line ∈ appendedLines fd events, CleanText line := by
        intro line listed
        exact cleanText_of_stepLine
          (stepEvents.lines fd line (mem_queuedLines_of_appended listed))
      refine ⟨client, appendedLines fd events, rfl, ?_, ?_⟩
      · rw [buffers]
        congr 1
        exact List.flatMap_congr fun line listed => withCrlf_of_clean (clean line listed)
      · intro line listed
        refine ⟨clean line listed, ?_⟩
        rw [stepLines_of_history stepEvents.history]
        exact mem_queuedLines_of_appended listed

theorem sendBuffer_of_leads (reached : stepSystem.Reachable before)
    (leads : stepMachine.LeadsBy (fun step => step.spares fd = true) before after)
    {next : Client} (foundNext : after.findClientByFd fd = some next) :
    ∃ (client : Client) (lines : List Bytes), before.findClientByFd fd = some client ∧
      next.sendBuffer = client.sendBuffer ++ lines.flatMap (· ++ crlf) ∧
      ∀ line ∈ lines, CleanText line ∧ QueuedBetween before after fd line := by
  rcases leads with ⟨steps, performed, spared⟩
  induction steps generalizing before with
  | nil =>
      rw [Machine.performAll, Option.some.injEq] at performed
      subst performed
      exact ⟨next, [], foundNext, by simp, by simp⟩
  | cons step steps ih =>
      rw [Machine.performAll] at performed
      split at performed
      next ready =>
        rw [List.forall_mem_cons] at spared
        rcases ih (reached.next ⟨ready, rfl⟩) performed spared.2 with
          ⟨current, lines, foundCurrent, grown, queued⟩
        rcases sendBuffer_of_spares (step_reachable_consistent reached) ready spared.1
          foundCurrent with ⟨client, first, found, grownFirst, queuedFirst⟩
        refine ⟨client, first ++ lines, found, ?_, ?_⟩
        · rw [grown, grownFirst, List.flatMap_append, List.append_assoc]
        · intro line listed
          rcases List.mem_append.mp listed with inFirst | inLines
          · rcases queuedFirst line inFirst with ⟨clean, here⟩
            exact ⟨clean, before, step, ⟨Machine.Leads.refl before, ready, ⟨steps, performed⟩⟩,
              here⟩
          · rcases queued line inLines with ⟨clean, later⟩
            exact ⟨clean, later.of_later ready⟩
      · simp at performed

end Server

end IrcPlatform.Irc
