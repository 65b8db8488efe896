import Mathlib.Data.List.TakeWhile
import IrcPlatform.Gateway.JsString
import IrcPlatform.Library.Tally
import IrcPlatform.Library.Transition

/-!
# The connection limits

`verifyClient` refuses a WebSocket when too many are open, in total or under the address
that `clientAddress` computes for it; `connectionsPerIp` counts the open sockets of each
address. A proxy stands in front that appends the address of its peer to the
`X-Forwarded-For` header of the client. The two callbacks of one handshake run without
another one between them.
-/

namespace IrcPlatform.Gateway

open JsString Std

/-- The address of a peer as the proxy writes it. -/
abbrev PeerAddress :=
  { text : JsString // text ≠ [] ∧ ∀ c ∈ text, c ≠ unit ',' ∧ isWhiteSpace c = false }

/-- What the two callbacks read of an upgrade request. -/
structure UpgradeRequest where
  origin : Option JsString
  /-- The `X-Forwarded-For` header. -/
  forwarded : Option JsString
  remoteAddress : Option JsString

def clientAddress (request : UpgradeRequest) : JsString :=
  let peer := (request.remoteAddress.filter (!·.isEmpty)).getD (js "unknown")
  match request.forwarded with
  | none => peer
  | some forwarded =>
      if forwarded.isEmpty then peer else trim (forwarded.takeWhile (· != unit ','))

structure LimitSettings where
  maxConnections : Nat
  maxConnectionsPerIp : Nat
  allowedOrigins : List JsString := []
  /-- The address that the proxy connects from. -/
  proxyAddress : JsString

/-- A tracked socket, with the peer it comes from and the key it is counted under. -/
structure OpenSocket where
  peer : PeerAddress
  address : JsString
deriving DecidableEq

structure Sockets where
  clients : List OpenSocket := []
  connectionsPerIp : ExtTreeMap JsString Int := ∅

/-- `value || otherwise`. -/
def orElse (value : Option Int) (otherwise : Int) : Int :=
  match value with
  | none => otherwise
  | some count => if count = 0 then otherwise else count

inductive Handshake where
  | accepted
  | refused (code : Nat) (message : JsString)
deriving DecidableEq

namespace Sockets

def verifyClient (settings : LimitSettings) (sockets : Sockets) (request : UpgradeRequest) :
    Handshake :=
  if !settings.allowedOrigins.isEmpty &&
      !(request.origin.any fun origin => settings.allowedOrigins.contains origin) then
    .refused 403 (js "Origin not allowed")
  else if settings.maxConnections ≤ sockets.clients.length ||
      (settings.maxConnectionsPerIp : Int) ≤
        orElse sockets.connectionsPerIp[clientAddress request]? 0 then
    .refused 429 (js "Too many connections")
  else .accepted

/-- The connection event. -/
def connect (sockets : Sockets) (peer : PeerAddress) (request : UpgradeRequest) : Sockets :=
  let address := clientAddress request
  { clients := { peer := peer, address := address } :: sockets.clients
    connectionsPerIp := sockets.connectionsPerIp.insert address
      (orElse sockets.connectionsPerIp[address]? 0 + 1) }

/-- The close event of the socket at a position. -/
def close (sockets : Sockets) (position : Nat) : Sockets :=
  match sockets.clients[position]? with
  | none => sockets
  | some socket =>
      let remaining := orElse sockets.connectionsPerIp[socket.address]? 1 - 1
      { clients := sockets.clients.eraseIdx position
        connectionsPerIp :=
          if 0 < remaining then sockets.connectionsPerIp.insert socket.address remaining
          else sockets.connectionsPerIp.erase socket.address }

end Sockets

inductive SocketEvent where
  /-- A peer of the proxy asks for a WebSocket; `sent` is the header as the client sent it. -/
  | upgrade (peer : PeerAddress) (origin sent : Option JsString)
  | close (position : Nat)

/-- The header that leaves the proxy. -/
def appendPeer (sent : Option JsString) (peer : PeerAddress) : JsString :=
  match sent with
  | none => peer.val
  | some text => text ++ js ", " ++ peer.val

/-- The request as the gateway gets it. -/
def proxied (settings : LimitSettings) (peer : PeerAddress) (origin sent : Option JsString) :
    UpgradeRequest where
  origin := origin
  forwarded := some (appendPeer sent peer)
  remoteAddress := some settings.proxyAddress

def socketMachine (settings : LimitSettings) : Machine Sockets SocketEvent where
  initial sockets := sockets = {}
  enabled sockets event :=
    match event with
    | .upgrade _ _ _ => true
    | .close position => position < sockets.clients.length
  perform sockets event :=
    match event with
    | .upgrade peer origin sent =>
        let request := proxied settings peer origin sent
        match sockets.verifyClient settings request with
        | .accepted => sockets.connect peer request
        | .refused _ _ => sockets
    | .close position => sockets.close position

/-! ## The books -/

/-- What holds of the counts in every run, whatever the clients send. -/
structure Booked (settings : LimitSettings) (sockets : Sockets) : Prop where
  total : sockets.clients.length ≤ settings.maxConnections
  perAddress (address : JsString) :
    (sockets.clients.map (·.address)).count address ≤ settings.maxConnectionsPerIp
  counted : Tallies sockets.connectionsPerIp (sockets.clients.map (·.address))

/-- An entry is the count, and a missing one is read as the given value. -/
theorem orElse_of_tallies {counts : ExtTreeMap JsString Int} {keys : List JsString}
    (tallies : Tallies counts keys) (key : JsString) (otherwise : Int) :
    orElse counts[key]? otherwise = if keys.count key = 0 then otherwise else keys.count key := by
  rw [tallies key]
  split
  next absent => rfl
  next present =>
    have nonzero : ((keys.count key : Nat) : Int) ≠ 0 := by omega
    simp only [orElse, if_neg nonzero]

theorem orElse_zero {counts : ExtTreeMap JsString Int} {keys : List JsString}
    (tallies : Tallies counts keys) (key : JsString) :
    orElse counts[key]? 0 = keys.count key := by
  rw [orElse_of_tallies tallies]
  split
  next absent => rw [absent]; rfl
  · rfl

namespace Booked

variable {settings : LimitSettings} {sockets : Sockets} (booked : Booked settings sockets)
include booked

theorem connect {request : UpgradeRequest}
    (accepted : sockets.verifyClient settings request = .accepted) (peer : PeerAddress) :
    Booked settings (sockets.connect peer request) := by
  have room : sockets.clients.length < settings.maxConnections ∧
      (sockets.clients.map (·.address)).count (clientAddress request) <
        settings.maxConnectionsPerIp := by
    rw [Sockets.verifyClient, orElse_zero booked.counted] at accepted
    split at accepted
    · simp at accepted
    · split at accepted
      · simp at accepted
      next full =>
        simp only [Bool.or_eq_true, decide_eq_true_eq, not_or] at full
        omega
  constructor
  case total =>
    simp only [Sockets.connect, List.length_cons]
    omega
  case perAddress =>
    intro address
    have before := booked.perAddress address
    simp only [Sockets.connect, List.map_cons, List.count_cons]
    split
    next same =>
      rw [← beq_iff_eq.mp same]
      omega
    · omega
  case counted =>
    simp only [Sockets.connect, List.map_cons, orElse_zero booked.counted]
    exact booked.counted.insert _

theorem close (position : Nat) : Booked settings (sockets.close position) := by
  rw [Sockets.close]
  split
  · exact booked
  next socket found =>
    rcases List.getElem?_eq_some_iff.mp found with ⟨bound, here⟩
    generalize taking : sockets.clients.take position = front
    generalize dropping : sockets.clients.drop (position + 1) = back
    have whole : sockets.clients = front ++ socket :: back := by
      rw [← taking, ← dropping, ← here, List.getElem_cons_drop bound, List.take_append_drop]
    have left : sockets.clients.eraseIdx position = front ++ back := by
      rw [List.eraseIdx_eq_take_drop_succ, taking, dropping]
    have addresses : sockets.clients.map (·.address) =
        front.map (·.address) ++ socket.address :: back.map (·.address) := by
      rw [whole, List.map_append, List.map_cons]
    have counted := booked.counted
    rw [addresses] at counted
    have present : (front.map (·.address) ++ socket.address :: back.map (·.address)).count
        socket.address ≠ 0 := by simp
    constructor
    case total =>
      have before := booked.total
      rw [left]
      rw [whole] at before
      simp only [List.length_append, List.length_cons] at before ⊢
      omega
    case perAddress =>
      intro address
      have before := booked.perAddress address
      rw [addresses, List.count_append, List.count_cons] at before
      rw [left, List.map_append, List.count_append]
      omega
    case counted =>
      rw [left, List.map_append]
      dsimp only
      rw [orElse_of_tallies counted, if_neg present]
      have removed := counted.remove
      split
      next more => rwa [if_pos (by omega)] at removed
      next last => rwa [if_neg (by omega)] at removed

end Booked

theorem booked_of_reachable {settings : LimitSettings} {sockets : Sockets}
    (reached : (socketMachine settings).system.Reachable sockets) : Booked settings sockets := by
  apply reached.invariant (Booked settings)
  · rintro _ rfl
    exact ⟨Nat.zero_le _, fun _ => Nat.zero_le _, Tallies.empty⟩
  · rintro before event _ _ booked ⟨_, rfl⟩
    cases event with
    | upgrade peer origin sent =>
        simp only [socketMachine]
        split
        next accepted => exact booked.connect accepted peer
        · exact booked
    | close position => exact booked.close position

/-! ## Peers -/

/-- The client sent no header, or one whose first entry is its own address. -/
def SocketEvent.unspoofed : SocketEvent → Bool
  | .upgrade peer _ (some text) => trim (text.takeWhile (· != unit ',')) == peer.val
  | .upgrade _ _ none | .close _ => true

/-- The claim of the limits: no peer has more sockets than one address may have, all peers
together have no more than are allowed, and every entry is the number of sockets under it. -/
structure Capped (settings : LimitSettings) (sockets : Sockets) : Prop where
  perPeer (peer : PeerAddress) :
    (sockets.clients.map (·.peer)).count peer ≤ settings.maxConnectionsPerIp
  total : sockets.clients.length ≤ settings.maxConnections
  counted : Tallies sockets.connectionsPerIp (sockets.clients.map (·.address))

theorem firstEntry_append (text rest : JsString) :
    (text ++ unit ',' :: rest).takeWhile (· != unit ',') = text.takeWhile (· != unit ',') := by
  induction text with
  | nil => simp
  | cons c text ih =>
      rw [List.cons_append, List.takeWhile_cons, List.takeWhile_cons]
      split
      · rw [ih]
      · rfl

theorem trim_peer (peer : PeerAddress) : trim peer.val = peer.val := by
  have kept {text : JsString} (visible : ∀ c ∈ text, isWhiteSpace c = false) :
      text.dropWhile isWhiteSpace = text := by
    cases text with
    | nil => rfl
    | cons c rest => rw [List.dropWhile_cons, if_neg (by simp [visible c List.mem_cons_self])]
  have visible : ∀ c ∈ peer.val, isWhiteSpace c = false := fun c listed =>
    (peer.property.2 c listed).2
  rw [trim, kept visible, kept (by simpa using visible), List.reverse_reverse]

/-- The address that an honest client is counted under. -/
theorem clientAddress_unspoofed {settings : LimitSettings} {peer : PeerAddress}
    {origin sent : Option JsString}
    (honest : (SocketEvent.upgrade peer origin sent).unspoofed = true) :
    clientAddress (proxied settings peer origin sent) = peer.val := by
  cases sent with
  | none =>
      have whole : peer.val.takeWhile (· != unit ',') = peer.val := by
        apply List.takeWhile_eq_self_iff.mpr
        intro c listed
        rw [bne_iff_ne]
        exact (peer.property.2 c listed).1
      have given : peer.val.isEmpty = false := by simpa using peer.property.1
      simp only [clientAddress, proxied, appendPeer, given, Bool.false_eq_true, if_false, whole]
      exact trim_peer peer
  | some text =>
      have comma : js ", " = unit ',' :: js " " := rfl
      have given : (text ++ js ", " ++ peer.val).isEmpty = false := by simp [comma]
      have front : (text ++ js ", " ++ peer.val).takeWhile (· != unit ',') =
          text.takeWhile (· != unit ',') := by
        rw [comma, List.append_assoc]
        exact firstEntry_append text _
      simp only [clientAddress, proxied, appendPeer, given, Bool.false_eq_true, if_false, front]
      exact beq_iff_eq.mp honest

/-- Every socket is counted under the address of its peer. -/
def Truthful (sockets : Sockets) : Prop :=
  ∀ socket ∈ sockets.clients, socket.address = socket.peer.val

theorem truthful_of_reaches {settings : LimitSettings} {sockets : Sockets}
    (reached : (socketMachine settings).system.Reaches (fun _ event => event.unspoofed = true)
      sockets) : Truthful sockets := by
  apply reached.invariant Truthful
  · rintro _ rfl socket listed
    simp at listed
  · rintro before event _ _ truthful honest ⟨_, rfl⟩
    cases event with
    | upgrade peer origin sent =>
        simp only [socketMachine]
        split
        · intro socket listed
          rcases List.mem_cons.mp listed with rfl | earlier
          · exact clientAddress_unspoofed honest
          · exact truthful socket earlier
        · exact truthful
    | close position =>
        simp only [socketMachine, Sockets.close]
        split
        · exact truthful
        · intro socket listed
          exact truthful socket (List.mem_of_mem_eraseIdx listed)

/-- In every run in which no client names another address, the limits hold. -/
theorem reaches_capped {settings : LimitSettings} {sockets : Sockets}
    (reached : (socketMachine settings).system.Reaches (fun _ event => event.unspoofed = true)
      sockets) : Capped settings sockets := by
  have booked := booked_of_reachable reached.reachable
  have truthful := truthful_of_reaches reached
  refine ⟨?_, booked.total, booked.counted⟩
  intro peer
  have same : sockets.clients.map (·.address) =
      (sockets.clients.map (·.peer)).map Subtype.val := by
    rw [List.map_map]
    exact List.map_congr_left truthful
  have bounded := booked.perAddress peer.val
  rw [same] at bounded
  exact List.count_le_count_map.trans bounded

theorem peer_of_all {text : JsString} (nonempty : text ≠ [])
    (plain : (text.all fun c => c != unit ',' && !isWhiteSpace c) = true) :
    text ≠ [] ∧ ∀ c ∈ text, c ≠ unit ',' ∧ isWhiteSpace c = false := by
  refine ⟨nonempty, ?_⟩
  intro c listed
  simpa using List.all_eq_true.mp plain c listed

/-- Two peers, one address each. -/
def alicePeer : PeerAddress := ⟨js "192.0.2.1", peer_of_all (by decide) (by decide)⟩

def bobPeer : PeerAddress := ⟨js "192.0.2.2", peer_of_all (by decide) (by decide)⟩

/-- The limits that the gateway has by default. -/
def defaultLimits : LimitSettings where
  maxConnections := 200
  maxConnectionsPerIp := 5
  proxyAddress := js "10.0.0.1"

/-- Two openings, one with a header that repeats the address, and a closing. -/
def honestRun : List SocketEvent :=
  [.upgrade alicePeer none none, .upgrade bobPeer none (some (js "192.0.2.2")), .close 1]

theorem reaches_capped_two : ∃ sockets,
    (socketMachine defaultLimits).performAll honestRun {} = some sockets ∧
      Capped defaultLimits sockets := by
  have performed : ((socketMachine defaultLimits).performAll honestRun {}).isSome = true := by
    decide +kernel
  rcases Option.isSome_iff_exists.mp performed with ⟨sockets, result⟩
  refine ⟨sockets, result, reaches_capped (Machine.reaches_performAll (.start rfl) result ?_)⟩
  exact Machine.everyStep_of_forall (by decide +kernel) _

/-- One peer with a header of its own for each socket. -/
def spoofingRun : List SocketEvent :=
  ["1", "2", "3", "4", "5", "6"].map fun name => .upgrade alicePeer none (some (js name))

/-- Six sockets of one peer, where five are allowed. -/
theorem spoofed_header : ∃ sockets,
    (socketMachine defaultLimits).performAll spoofingRun {} = some sockets ∧
    (sockets.clients.map (·.peer)).count alicePeer = 6 ∧ ¬Capped defaultLimits sockets := by
  have opened : ((((socketMachine defaultLimits).performAll spoofingRun {}).map fun sockets =>
      (sockets.clients.map (·.peer)).count alicePeer)) = some 6 := by decide +kernel
  rcases Option.map_eq_some_iff.mp opened with ⟨sockets, performed, six⟩
  refine ⟨sockets, performed, six, ?_⟩
  intro capped
  have bounded := capped.perPeer alicePeer
  rw [six] at bounded
  exact absurd bounded (by decide)

end IrcPlatform.Gateway
