import IrcPlatform.Gateway.Recording

/-!
# The replay and the members of a channel

Two laws of the stored messages: each comes from a PRIVMSG that the server
accepts from a member of the channel, and under the nickname that the server has
for the connection. The gateway stores a message before the server has answered,
so each law holds along the runs that keep its duty and fails on others.
-/

namespace IrcPlatform.Gateway

open JsString

/-! ## Messages from members -/

/-- A recorded message has no NUL and meets its connection as a member of the channel. -/
def memberDuty : Duty where
  met server fd entry := !entry.recorded || (!entry.text.val.contains 0 &&
    (server.findChannel (utf8 entry.target.val)).any (·.hasMember fd))
  spared _ entry := !entry.recorded

def AcceptedFromMember (entry : Entry) (outcome : Outcome) : Prop :=
  entry.recorded = true → ∃ relayed nickname, outcome = .read true relayed nickname

theorem memberDuty_sound : memberDuty.Sound AcceptedFromMember where
  read {server fd entry} reached met recorded := by
    simp only [memberDuty, recorded, Bool.not_true, Bool.false_or, Bool.and_eq_true,
      Bool.not_eq_true', List.contains_eq_mem, decide_eq_false_iff_not] at met
    have accepted := (acceptsFromMember_message_iff reached entry
      (entry.recorded_channel recorded)).mpr met
    exact ⟨server.relays fd (Line.message entry).text, server.nicknameOf fd, by
      rw [outcomeOf, accepted]⟩
  lost {nickname entry} spared recorded := by
    simp [memberDuty, recorded] at spared

/-- Every stored message waits or was accepted as coming from a member of its channel, and
no recorded message has another verdict. -/
structure HistoryFromMembers (state : State) : Prop where
  stored (channel : JsString) (message : HistoryMessage) :
    state.history.Remembers channel message → ∃ entry ∈ state.entries, entry.recorded = true ∧
      entry.target.val = channel ∧ entry.nick = message.nick ∧ entry.text.val = message.text ∧
      (state.Waits entry ∨
        ∃ relayed nickname, ⟨entry, .read true relayed nickname⟩ ∈ state.verdicts)
  accepted (verdict : Verdict) : verdict ∈ state.verdicts →
    AcceptedFromMember verdict.entry verdict.outcome

/-- A message that is recorded or relayed meets the nickname it was echoed under. -/
def nickDuty : Duty where
  met server fd entry := !(entry.recorded || server.relays fd (Line.message entry).text) ||
    server.nicknameOf fd == utf8 entry.nick
  spared nickname entry := !entry.recorded || nickname == utf8 entry.nick

def Outcome.nickname : Outcome → Bytes
  | lost nickname | read _ _ nickname => nickname

def Outcome.relayed : Outcome → Bool
  | lost _ => false
  | read _ relayed _ => relayed

def NickGranted (entry : Entry) (outcome : Outcome) : Prop :=
  (entry.recorded || outcome.relayed) = true → outcome.nickname = utf8 entry.nick

theorem nickDuty_sound : nickDuty.Sound NickGranted where
  read {server fd entry} reached met counted := by
    have same : (entry.recorded || server.relays fd (Line.message entry).text) = true := counted
    simp only [nickDuty, same, Bool.not_true, Bool.false_or, beq_iff_eq] at met
    exact met
  lost {nickname entry} spared counted := by
    have recorded : entry.recorded = true := by simpa [Outcome.relayed] using counted
    simp only [nickDuty, recorded, Bool.not_true, Bool.false_or, beq_iff_eq] at spared
    exact spared

/-- Every stored message waits or has the nickname that the server had for its connection,
and so has every message that was relayed. -/
structure NicksGranted (state : State) : Prop where
  stored (channel : JsString) (message : HistoryMessage) :
    state.history.Remembers channel message → ∃ entry ∈ state.entries, entry.recorded = true ∧
      entry.target.val = channel ∧ entry.nick = message.nick ∧ entry.text.val = message.text ∧
      (state.Waits entry ∨ ∃ outcome, ⟨entry, outcome⟩ ∈ state.verdicts ∧
        outcome.nickname = utf8 message.nick)
  granted (verdict : Verdict) : verdict ∈ state.verdicts →
    NickGranted verdict.entry verdict.outcome

def origin : State :=
  State.start (Irc.Server.fresh (ascii "secret") (ascii "today") 3) (js "secret") 100 50 200

theorem reaches_origin (permitted : State → Action → Prop) :
    gatewaySystem.Reaches permitted origin :=
  .start ⟨_, _, _, _, _, Irc.Server.reachable_fresh _ _ _, rfl⟩

/-- A browser connects as alice, and the server reads up to the JOIN of the channel. -/
def connectAlice (channel : String) : List Action :=
  [ .openSocket,
    .browser 0 0 (some (.connect (.string (js "alice")) (.string (js channel)) .undefined)),
    .establish 0 4 (ascii "127.0.0.1"), .read 0, .read 0, .read 0, .flush 0 4096, .arrive 0,
    .read 0 ]

/-- A message of that browser, which the server reads. -/
def aliceSays (text : String) : List Action :=
  [ .browser 0 1 (some (.message .undefined (.string (js text)))), .read 0 ]

/-- Another client registers as bob and sends one more command. -/
def connectBob (command : Irc.Message) : List Action :=
  [ .other (.accept 9 (ascii "127.0.0.1")),
    .other (.dispatch 9 { command := ascii "PASS", params := [ascii "secret"] }),
    .other (.dispatch 9 { command := ascii "NICK", params := [ascii "bob"] }),
    .other (.dispatch 9 { command := ascii "USER", params := [ascii "bob", ascii "0", ascii "*",
      ascii "bob"] }),
    .other (.dispatch 9 command) ]

/-- alice joins a channel of her own and speaks there. -/
def greeting : List Action := connectAlice "#room" ++ aliceSays "hello"

theorem performAll_greeting : gatewayMachine.performAll greeting origin =
    some (gatewayMachine.performOr origin greeting) :=
  Machine.performAll_eq_performOr (by decide +kernel)

/-- alice may not join the channel that bob has made invite-only, and speaks there. -/
def planting : List Action :=
  connectBob { command := ascii "JOIN", params := [ascii "#closed"] } ++
    .other (.dispatch 9 { command := ascii "MODE", params := [ascii "#closed", ascii "+i"] }) ::
      connectAlice "#closed" ++ aliceSays "planted"

/-- alice asks for the nickname of bob and speaks at once. -/
def impersonation : List Action :=
  connectBob { command := ascii "JOIN", params := [ascii "#room"] } ++ connectAlice "#room" ++
    [ .browser 0 1 (some (.nick (.string (js "bob")))), .read 0 ] ++ aliceSays "hello"

end IrcPlatform.Gateway
