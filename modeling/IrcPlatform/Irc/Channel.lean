import IrcPlatform.Library.Bytes

/-!
# IRC channels

The state of one channel: names, topic, the descriptor sets of members,
operators and invited clients, and the i, t, k and l modes. `removeMember`
also drops the operator bit, and `addOperator` refuses descriptors that are
not members.
-/

namespace IrcPlatform.Irc

open Std

structure Channel where
  name : Bytes
  keyName : Bytes
  topic : Bytes := []
  members : ExtTreeSet Int := ∅
  operators : ExtTreeSet Int := ∅
  invited : ExtTreeSet Int := ∅
  inviteOnly : Bool := false
  topicRestricted : Bool := true
  keyEnabled : Bool := false
  channelKey : Bytes := []
  limitEnabled : Bool := false
  userLimit : Nat := 0

namespace Channel

def setTopic (channel : Channel) (topic : Bytes) : Channel := { channel with topic := topic }

def hasTopic (channel : Channel) : Bool := !channel.topic.isEmpty

def isEmpty (channel : Channel) : Bool := channel.members.isEmpty

def hasMember (channel : Channel) (fd : Int) : Bool := channel.members.contains fd

def addMember (channel : Channel) (fd : Int) : Channel :=
  { channel with members := channel.members.insert fd }

def removeMember (channel : Channel) (fd : Int) : Channel :=
  { channel with
    members := channel.members.erase fd
    operators := channel.operators.erase fd }

def isOperator (channel : Channel) (fd : Int) : Bool := channel.operators.contains fd

/-- The flag tells whether the operator set changed. -/
def addOperator (channel : Channel) (fd : Int) : Bool × Channel :=
  if !channel.hasMember fd then (false, channel)
  else
    (!channel.operators.contains fd, { channel with operators := channel.operators.insert fd })

/-- The flag tells whether the operator set changed. -/
def removeOperator (channel : Channel) (fd : Int) : Bool × Channel :=
  (channel.operators.contains fd, { channel with operators := channel.operators.erase fd })

def isInvited (channel : Channel) (fd : Int) : Bool := channel.invited.contains fd

def addInvite (channel : Channel) (fd : Int) : Channel :=
  { channel with invited := channel.invited.insert fd }

def removeInvite (channel : Channel) (fd : Int) : Channel :=
  { channel with invited := channel.invited.erase fd }

def setInviteOnly (channel : Channel) (enabled : Bool) : Channel :=
  { channel with inviteOnly := enabled }

def setTopicRestricted (channel : Channel) (enabled : Bool) : Channel :=
  { channel with topicRestricted := enabled }

def hasKey (channel : Channel) : Bool := channel.keyEnabled

def setChannelKey (channel : Channel) (key : Bytes) : Channel :=
  { channel with channelKey := key, keyEnabled := true }

def clearChannelKey (channel : Channel) : Channel :=
  { channel with channelKey := [], keyEnabled := false }

def matchesKey (channel : Channel) (key : Bytes) : Bool :=
  if !channel.keyEnabled then true else channel.channelKey == key

def hasUserLimit (channel : Channel) : Bool := channel.limitEnabled

def setUserLimit (channel : Channel) (limit : Nat) : Channel :=
  { channel with userLimit := limit, limitEnabled := true }

def clearUserLimit (channel : Channel) : Channel :=
  { channel with userLimit := 0, limitEnabled := false }

def isFull (channel : Channel) : Bool :=
  if !channel.limitEnabled then false else channel.userLimit ≤ channel.members.size

def buildModeString (channel : Channel) : Bytes :=
  ascii "+" ++ (if channel.inviteOnly then ascii "i" else []) ++
    (if channel.topicRestricted then ascii "t" else []) ++
    (if channel.keyEnabled then ascii "k" else []) ++
    (if channel.limitEnabled then ascii "l" else [])

def buildModeParameters (channel : Channel) : List Bytes :=
  (if channel.keyEnabled then [channel.channelKey] else []) ++
    (if channel.limitEnabled then [decimal channel.userLimit] else [])

/-! ## The names and sets after each change -/

@[simp, grind =] theorem addMember_name (channel : Channel) (fd : Int) :
    (channel.addMember fd).name = channel.name := rfl

@[simp, grind =] theorem addMember_keyName (channel : Channel) (fd : Int) :
    (channel.addMember fd).keyName = channel.keyName := rfl

@[simp, grind =] theorem addMember_members (channel : Channel) (fd : Int) :
    (channel.addMember fd).members = channel.members.insert fd := rfl

@[simp, grind =] theorem addMember_operators (channel : Channel) (fd : Int) :
    (channel.addMember fd).operators = channel.operators := rfl

@[simp, grind =] theorem addMember_invited (channel : Channel) (fd : Int) :
    (channel.addMember fd).invited = channel.invited := rfl

@[simp, grind =] theorem removeMember_name (channel : Channel) (fd : Int) :
    (channel.removeMember fd).name = channel.name := rfl

@[simp, grind =] theorem removeMember_keyName (channel : Channel) (fd : Int) :
    (channel.removeMember fd).keyName = channel.keyName := rfl

@[simp, grind =] theorem removeMember_members (channel : Channel) (fd : Int) :
    (channel.removeMember fd).members = channel.members.erase fd := rfl

@[simp, grind =] theorem removeMember_operators (channel : Channel) (fd : Int) :
    (channel.removeMember fd).operators = channel.operators.erase fd := rfl

@[simp, grind =] theorem removeMember_invited (channel : Channel) (fd : Int) :
    (channel.removeMember fd).invited = channel.invited := rfl

@[simp, grind =] theorem addInvite_name (channel : Channel) (fd : Int) :
    (channel.addInvite fd).name = channel.name := rfl

@[simp, grind =] theorem addInvite_keyName (channel : Channel) (fd : Int) :
    (channel.addInvite fd).keyName = channel.keyName := rfl

@[simp, grind =] theorem addInvite_members (channel : Channel) (fd : Int) :
    (channel.addInvite fd).members = channel.members := rfl

@[simp, grind =] theorem addInvite_operators (channel : Channel) (fd : Int) :
    (channel.addInvite fd).operators = channel.operators := rfl

@[simp, grind =] theorem addInvite_invited (channel : Channel) (fd : Int) :
    (channel.addInvite fd).invited = channel.invited.insert fd := rfl

@[simp, grind =] theorem removeInvite_name (channel : Channel) (fd : Int) :
    (channel.removeInvite fd).name = channel.name := rfl

@[simp, grind =] theorem removeInvite_keyName (channel : Channel) (fd : Int) :
    (channel.removeInvite fd).keyName = channel.keyName := rfl

@[simp, grind =] theorem removeInvite_members (channel : Channel) (fd : Int) :
    (channel.removeInvite fd).members = channel.members := rfl

@[simp, grind =] theorem removeInvite_operators (channel : Channel) (fd : Int) :
    (channel.removeInvite fd).operators = channel.operators := rfl

@[simp, grind =] theorem removeInvite_invited (channel : Channel) (fd : Int) :
    (channel.removeInvite fd).invited = channel.invited.erase fd := rfl

/-- An empty channel has no member. -/
@[grind =] theorem isEmpty_eq_false_iff (channel : Channel) :
    channel.isEmpty = false ↔ ∃ fd, fd ∈ channel.members := by
  rw [isEmpty, ← ExtTreeSet.isEmpty_toList, List.isEmpty_eq_false_iff_exists_mem]
  simp

end Channel

end IrcPlatform.Irc
