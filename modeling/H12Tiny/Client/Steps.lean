import H12Tiny.Client.Request
import H12Tiny.Pool.Steps

/-! # Inversion of the client's steps

Every step of a request performs exactly one action of the pool, the reading of
the clock standing for none, and moves the request to its next phase. `Transition`
lists the cases with the facts the branch was taken under.
-/
namespace H12Tiny.Client
open Pool
variable {K : Type*} [DecidableEq K]

def Attached (w : World PoolClient K) (c : ℕ) : Prop :=
  ∃ checkout i x, w.checkouts.get c = some checkout ∧ checkout.waiter = some i ∧
    w.chans.get i = some x ∧ x.chan.receiver = true

namespace Phase

def polls : Phase → Option (ℕ × Option ℕ)
  | .fresh c => some (c,none)
  | .racing c connect => if connect.suspended then some (c,some connect.guard) else none
  | .waiting c => some (c,none)
  | _ => none

def pending : Phase → Phase
  | .fresh c => .registered c
  | phase => phase

def abandons : Phase → Option (ℕ × Option ℕ)
  | .fresh c => some (c,none)
  | .waiting c => some (c,none)
  | .racing c connect => if connect.suspended then some (c,some connect.guard) else none
  | .connecting c connect => if connect.suspended then some (c,some connect.guard) else none
  | _ => none

end Phase

inductive Transition (s : State K) : Action K → State K → Prop
  | request {key : K} {w : World PoolClient K} : s.world.step (.newCheckout key) = some w →
      w.checkouts.get s.world.checkouts.next = some ⟨key,none⟩ →
      Transition s (.request key)
        { s with world := w, requests := s.requests.alloc ⟨key,.fresh s.world.checkouts.next,none⟩ }
  | served {r c p : ℕ} {g : Option ℕ} {q : Request K} {w : World PoolClient K} :
      s.requests.get r = some q → q.phase.polls = some (c,g) →
      s.world.step (.pollWaiter c) = some w →
      Transition s (.pollWaiter r) (s.update r w (.leaving (some c) g (.result (.ok p))))
  | closed {r c : ℕ} {q : Request K} {k : Connect} {w : World PoolClient K} :
      s.requests.get r = some q → q.phase = .racing c k → k.suspended = true →
      s.world.step (.pollWaiter c) = some w →
      Transition s (.pollWaiter r) (s.update r w (.connecting c k))
  | unwanted {r c i : ℕ} {q : Request K} {k : Connect} {checkout : Checkout K}
      {x : Waiter PoolClient K} {w : World PoolClient K} :
      s.requests.get r = some q → q.phase = .racing c k → k.suspended = true →
      s.world.checkouts.get c = some checkout → checkout.waiter = some i →
      s.world.chans.get i = some x → x.chan.receiver = true → x.chan.slot = none →
      x.chan.sender ≠ .held → s.world.step (.pollWaiter c) = some w →
      Transition s (.pollWaiter r)
        (s.update r w (.leaving (some c) (some k.guard)
          (.result (.error ⟨.connect,some (.checkout .noLongerWanted)⟩))))
  | retried {r c : ℕ} {q : Request K} {w : World PoolClient K} :
      s.requests.get r = some q → q.phase = .waiting c → s.world.step (.pollWaiter c) = some w →
      Transition s (.pollWaiter r) (s.update r w (.leaving (some c) none .retry))
  | idle {r : ℕ} {q : Request K} : s.requests.get r = some q →
      Transition s (.pollWaiter r) (s.update r s.world q.phase)
  | found {r c p : ℕ} {g : Option ℕ} {q : Request K} {w : World PoolClient K} :
      s.requests.get r = some q → q.phase.polls = some (c,g) →
      s.world.step (.checkout c) = some w →
      Transition s (.pollCheckout r) (s.update r w (.leaving (some c) g (.result (.ok p))))
  | parked {r c : ℕ} {g : Option ℕ} {q : Request K} {w : World PoolClient K} :
      s.requests.get r = some q → q.phase.polls = some (c,g) →
      s.world.step (.checkout c) = some w → Attached w c →
      Transition s (.pollCheckout r) (s.update r w q.phase.pending)
  | granted {r c : ℕ} {q : Request K} {w : World PoolClient K} :
      s.requests.get r = some q → q.phase = .registered c →
      s.world.step (.connecting q.key s.protocol) = some w →
      w.guards.get s.world.guards.next = some ⟨q.key,true,decide (s.protocol ≠ .http2)⟩ →
      (s.protocol ≠ .http2 → s.world.inner.h1Count q.key < s.world.inner.maxH1ConnectionsPerHost) →
      Transition s (.connect r) (s.update r w (.racing c (.dialing s.world.guards.next)))
  | refused {r c : ℕ} {q : Request K} {w : World PoolClient K} :
      s.requests.get r = some q → q.phase = .registered c →
      s.world.step (.connecting q.key s.protocol) = some w →
      w.inner.maxH1ConnectionsPerHost ≤ w.inner.h1Count q.key ∨ w.inner.connecting q.key = true →
      Transition s (.connect r) (s.update r w (.waiting c))
  | dialFailed {r c g : ℕ} {q : Request K} {outcome : Except ConnectorError ConnectionProtocol}
      {error : Error} :
      s.requests.get r = some q → q.phase.establishing = some (c,.dialing g) →
      Transition s (.dialed r outcome) (s.fail r c g error)
  | opened {r c g : ℕ} {q : Request K} {protocol : ConnectionProtocol} :
      s.requests.get r = some q → q.phase.establishing = some (c,.dialing g) →
      (protocol = .http2 → s.protocol = .http2) →
      Transition s (.dialed r (.ok protocol))
        (s.update r s.world (q.phase.resume (.handshaking g protocol)))
  | converting {r c g : ℕ} {q : Request K} {w : World PoolClient K} :
      s.requests.get r = some q → q.phase.establishing = some (c,.dialing g) → s.protocol = .auto →
      s.world.step (.alpnRelease g) = some w →
      Transition s (.dialed r (.ok .http2)) (s.update r w (q.phase.resume (.converting g)))
  | won {r c g : ℕ} {q : Request K} {guard : Connecting K} {w : World PoolClient K} :
      s.requests.get r = some q → q.phase.establishing = some (c,.converting g) →
      s.world.step (.alpnMark g) = some w → s.world.guards.get g = some guard →
      w.guards.get g = some { guard with pool := true, h1Slot := false } →
      Transition s (.alpnMark r) (s.update r w (q.phase.resume (.handshaking g .http2)))
  | lost {r c g : ℕ} {q : Request K} {guard : Connecting K} {w : World PoolClient K} :
      s.requests.get r = some q → q.phase.establishing = some (c,.converting g) →
      s.world.step (.alpnMark g) = some w → s.world.guards.get g = some guard →
      s.world.inner.connecting guard.key = true → w.inner = s.world.inner →
      Transition s (.alpnMark r) (s.update r w q.phase.refused)
  | handshakeFailed {r c g : ℕ} {q : Request K} {protocol : ConnectionProtocol} {error : Error}
      {vanish : ℕ → Bool} :
      s.requests.get r = some q → q.phase.establishing = some (c,.handshaking g protocol) →
      Transition s (.handshaken r none vanish) (s.fail r c g error)
  | pooled {r c g p connection : ℕ} {q : Request K} {protocol : ConnectionProtocol}
      {vanish : ℕ → Bool} {w : World PoolClient K} :
      s.requests.get r = some q → q.phase.establishing = some (c,.handshaking g protocol) →
      s.world.step (.pooled g (poolClient protocol connection)
        (fun i => vanish i && s.isLeaving i)) = some w →
      Transition s (.handshaken r (some connection) vanish)
        (s.update r w (.leaving (some c) none (.result (.ok p))))
  | cancel {r c : ℕ} {g : Option ℕ} {q : Request K} :
      s.requests.get r = some q → q.phase.abandons = some (c,g) →
      Transition s (.cancel r) (s.update r s.world (.leaving (some c) g .cancelled))
  | dropReceiver {r c : ℕ} {g : Option ℕ} {next : Next} {q : Request K} {w : World PoolClient K} :
      s.requests.get r = some q → q.phase = .leaving (some c) g next →
      s.world.step (.cancelCheckout c) = some w →
      Transition s (.dropReceiver r) (s.update r w (.leaving (some c) g next))
  | dropCheckout {r c : ℕ} {g : Option ℕ} {next : Next} {q : Request K} {w : World PoolClient K} :
      s.requests.get r = some q → q.phase = .leaving (some c) g next →
      s.world.step (.dropCheckout c) = some w →
      Transition s (.dropCheckout r) (s.update r w (.leaving none g next))
  | dropGuard {r g : ℕ} {c : Option ℕ} {next : Next} {q : Request K} {w : World PoolClient K} :
      s.requests.get r = some q → q.phase = .leaving c (some g) next →
      s.world.step (.dropConnecting g) = some w →
      Transition s (.dropGuard r) (s.update r w (.leaving c none next))
  | finished {r : ℕ} {result : Except Error ℕ} {q : Request K} :
      s.requests.get r = some q → q.phase = .leaving none none (.result result) →
      Transition s (.finish r) (s.update r s.world (.done result))
  | cancelled {r : ℕ} {q : Request K} :
      s.requests.get r = some q → q.phase = .leaving none none .cancelled →
      Transition s (.finish r) (s.update r s.world .cancelled)
  | again {r : ℕ} {q : Request K} {w : World PoolClient K} :
      s.requests.get r = some q → q.phase = .leaving none none .retry →
      s.world.step (.newCheckout q.key) = some w →
      w.checkouts.get s.world.checkouts.next = some ⟨q.key,none⟩ →
      Transition s (.finish r) (s.update r w (.fresh s.world.checkouts.next))
  | gaveUp {r : ℕ} {q : Request K} :
      s.requests.get r = some q → q.phase = .leaving none none .retry →
      s.retryCanceledRequests = false →
      Transition s (.finish r) (s.update r s.world (.done (.error ⟨.canceled,none⟩)))
  | release {r p : ℕ} {q : Request K} {vanish : ℕ → Bool} {w : World PoolClient K} :
      s.requests.get r = some q → q.phase = .done (.ok p) →
      s.world.step (.dropPooled p (fun i => vanish i && s.isLeaving i)) = some w →
      Transition s (.release r vanish) (s.update r w .returned)
  | clearExpired {w : World PoolClient K} : s.world.step .clearExpired = some w →
      Transition s .clearExpired { s with world := w }
  | readiness {isOpen : PoolClient → Bool} {w : World PoolClient K} :
      s.world.step (.readiness isOpen) = some w →
      Transition s (.readiness isOpen) { s with world := w }
  | clock {now : ℕ} {w : World PoolClient K} : s.world.step (.clock now) = some w →
      Transition s (.clock now) { s with world := w }

inductive Polled (w : World PoolClient K) (c : ℕ) :
    Poll (Option (Except CheckoutError ℕ)) → World PoolClient K → Prop
  | absent : Polled w c (.ready none) w
  | pending : Polled w c .pending w
  | received {p : ℕ} {w' : World PoolClient K} : Polled w c (.ready (some (.ok p))) w'
  | closed {w' : World PoolClient K} : Polled w c (.ready (some (.error .closedValue))) w'
  | unwanted {i : ℕ} {checkout : Checkout K} {x : Waiter PoolClient K} {w' : World PoolClient K} :
      w.checkouts.get c = some checkout → checkout.waiter = some i → w.chans.get i = some x →
      x.chan.receiver = true → x.chan.slot = none → x.chan.sender ≠ .held →
      Polled w c (.ready (some (.error .noLongerWanted))) w'

omit [DecidableEq K] in
theorem pollWaiter_polled {w w' : World PoolClient K} {c : ℕ}
    {polled : Poll (Option (Except CheckoutError ℕ))} (h : w.pollWaiter c = some (polled,w')) :
    Polled w c polled w' := by
  unfold World.pollWaiter at h
  obtain ⟨checkout,hc,h⟩ := Option.bind_eq_some_iff.mp h
  cases hw : checkout.waiter with
  | none =>
    simp only [hw] at h
    cases h
    exact .absent
  | some i =>
    simp only [hw] at h
    obtain ⟨x,hx,h⟩ := Option.bind_eq_some_iff.mp h
    cases hr : x.chan.receiver with
    | false => simp [Oneshot.isCanceled,hr] at h
    | true =>
      simp only [Oneshot.isCanceled,hr,Bool.not_true,Bool.false_eq_true,if_false] at h
      cases hs : x.chan.slot with
      | some value =>
        simp only [Oneshot.poll,hs] at h
        cases ho : w.isOpen value with
        | true =>
          simp only [ho,if_true] at h
          cases h
          exact .received
        | false =>
          simp only [ho,Bool.false_eq_true,if_false] at h
          cases h
          exact .closed
      | none =>
        cases ht : x.chan.sender with
        | held =>
          simp only [Oneshot.poll,hs,ht] at h
          cases h
          exact .pending
        | sent =>
          simp only [Oneshot.poll,hs,ht] at h
          cases h
          exact .unwanted hc hw hx hr hs (by simp [ht])
        | dropped =>
          simp only [Oneshot.poll,hs,ht] at h
          cases h
          exact .unwanted hc hw hx hr hs (by simp [ht])

/-- A poll of the idle list that finds nothing leaves the checkout waiting. -/
theorem checkout_attached {w w' : World PoolClient K} {c : ℕ} (h : w.checkout c = some (none,w')) :
    Attached w' c := by
  unfold World.checkout at h
  obtain ⟨checkout,hc,h⟩ := Option.bind_eq_some_iff.mp h
  by_cases hrec : w.receiving checkout = true
  · rw [if_pos hrec] at h
    dsimp only at h
    split at h
    · cases h
    · cases hw : checkout.waiter with
      | some i =>
        simp only [hw] at h
        cases h
        rw [World.receiving,hw] at hrec
        obtain ⟨x,hx,hr⟩ := Channels.receiver_of_not_canceled (Bool.not_eq_true' _ ▸ hrec)
        exact ⟨checkout,i,x,hc,hw,hx,hr⟩
      | none =>
        simp only [hw] at h
        cases h
        refine ⟨{ checkout with waiter := some w.chans.next },_,_,?_,rfl,
          Table.get_alloc_self _ _,rfl⟩
        rw [Table.get_modify_self,hc]
        rfl
  · rw [if_neg hrec] at h
    cases h

section Inversion
variable {s s' : State K}

theorem pollWaiter_transition {r : ℕ} (h : s.pollWaiter r = some s') : Transition s (.pollWaiter r) s' := by
  unfold State.pollWaiter at h
  obtain ⟨q,hq,h⟩ := Option.bind_eq_some_iff.mp h
  have hstep : ∀ {c : ℕ} {polled : Poll (Option (Except CheckoutError ℕ))} {w : World PoolClient K},
      s.world.pollWaiter c = some (polled,w) → s.world.step (.pollWaiter c) = some w := by
    intro c polled w hp
    simp only [World.step,hp,Option.map_some]
  split at h
  · rename_i c k hphase
    split at h
    · rename_i hk
      have hpolls : q.phase.polls = some (c,some k.guard) := by simp [hphase,Phase.polls,hk]
      obtain ⟨⟨polled,w⟩,hp,rfl⟩ := Option.map_eq_some_iff.mp h
      have hs := hstep hp
      cases pollWaiter_polled hp with
      | absent | pending =>
        have hi := Transition.idle hq
        rw [hphase] at hi
        exact hi
      | received => exact .served hq hpolls hs
      | closed => exact .closed hq hphase hk hs
      | unwanted hc hw hx hr hslot hsend =>
        exact .unwanted hq hphase hk hc hw hx hr hslot hsend hs
    · cases h
  · rename_i c hphase
    have hpolls : q.phase.polls = some (c,none) := by simp [hphase,Phase.polls]
    obtain ⟨⟨polled,w⟩,hp,rfl⟩ := Option.map_eq_some_iff.mp h
    have hs := hstep hp
    cases pollWaiter_polled hp with
    | absent | pending =>
      have hi := Transition.idle hq
      rw [hphase] at hi
      exact hi
    | received => exact .served hq hpolls hs
    | closed => exact .retried hq hphase hs
    | unwanted => exact .retried hq hphase hs
  · cases h

theorem pollCheckout_transition {r : ℕ} (h : s.pollCheckout r = some s') :
    Transition s (.pollCheckout r) s' := by
  unfold State.pollCheckout at h
  obtain ⟨q,hq,h⟩ := Option.bind_eq_some_iff.mp h
  have hstep : ∀ {c : ℕ} {found : Option ℕ} {w : World PoolClient K},
      s.world.checkout c = some (found,w) → s.world.step (.checkout c) = some w := by
    intro c found w hp
    simp only [World.step,hp,Option.map_some]
  split at h
  · rename_i c hphase
    have hpolls : q.phase.polls = some (c,none) := by simp [hphase,Phase.polls]
    obtain ⟨⟨found,w⟩,hp,rfl⟩ := Option.map_eq_some_iff.mp h
    have hs := hstep hp
    cases found with
    | some p => exact .found hq hpolls hs
    | none =>
      have ht := Transition.parked hq hpolls hs (checkout_attached hp)
      rw [hphase] at ht
      exact ht
  · rename_i c k hphase
    split at h
    · rename_i hk
      have hpolls : q.phase.polls = some (c,some k.guard) := by simp [hphase,Phase.polls,hk]
      obtain ⟨⟨found,w⟩,hp,rfl⟩ := Option.map_eq_some_iff.mp h
      have hs := hstep hp
      cases found with
      | some p => exact .found hq hpolls hs
      | none =>
        have ht := Transition.parked hq hpolls hs (checkout_attached hp)
        rw [hphase] at ht
        exact ht
    · cases h
  · rename_i c hphase
    have hpolls : q.phase.polls = some (c,none) := by simp [hphase,Phase.polls]
    obtain ⟨⟨found,w⟩,hp,rfl⟩ := Option.map_eq_some_iff.mp h
    have hs := hstep hp
    cases found with
    | some p => exact .found hq hpolls hs
    | none =>
      have ht := Transition.parked hq hpolls hs (checkout_attached hp)
      rw [hphase] at ht
      exact ht
  · cases h

theorem connect_transition {r : ℕ} (h : s.connect r = some s') : Transition s (.connect r) s' := by
  unfold State.connect at h
  obtain ⟨q,hq,h⟩ := Option.bind_eq_some_iff.mp h
  split at h
  · rename_i c hphase
    have hstep : s.world.step (.connecting q.key s.protocol) =
        some (s.world.connecting q.key s.protocol).2 := rfl
    dsimp only at h
    by_cases hp : s.protocol = .http2
    · cases hm : s.world.inner.connecting q.key with
      | true =>
        have he : s.world.connecting q.key s.protocol = (none,s.world) := by
          simp [World.connecting,hp,hm]
        rw [he] at h hstep
        cases h
        rw [hphase]
        exact .refused hq hphase hstep (Or.inr hm)
      | false =>
        have hfst : (s.world.connecting q.key s.protocol).1 = some s.world.guards.next := by
          simp [World.connecting,hp,hm]
        have hget : (s.world.connecting q.key s.protocol).2.guards.get s.world.guards.next =
            some ⟨q.key,true,decide (s.protocol ≠ .http2)⟩ := by
          simp [World.connecting,hp,hm]
        rw [hfst] at h
        cases h
        exact .granted hq hphase hstep hget (fun hn => absurd hp hn)
    · have hflag : decide (s.protocol ≠ .http2) = true := by simp [hp]
      by_cases hm : s.world.inner.maxH1ConnectionsPerHost ≤ s.world.inner.h1Count q.key
      · have he : s.world.connecting q.key s.protocol = (none,{ s.world with
            inner := { s.world.inner with
              h1Connections := mapSet s.world.inner.h1Connections q.key
                (some (s.world.inner.h1Count q.key)) } }) := by
          simp [World.connecting,hp,Inner.reserveH1Slot,hm]
        rw [he] at h hstep
        cases h
        rw [hphase]
        refine .refused hq hphase hstep (Or.inl ?_)
        change s.world.inner.maxH1ConnectionsPerHost ≤
          (mapSet s.world.inner.h1Connections q.key (some (s.world.inner.h1Count q.key)) q.key).getD 0
        rw [mapSet_self]
        exact hm
      · have hfst : (s.world.connecting q.key s.protocol).1 = some s.world.guards.next := by
          simp [World.connecting,hp,Inner.reserveH1Slot,hm]
        have hget : (s.world.connecting q.key s.protocol).2.guards.get s.world.guards.next =
            some ⟨q.key,true,decide (s.protocol ≠ .http2)⟩ := by
          rw [hflag]
          simp [World.connecting,hp,Inner.reserveH1Slot,hm]
        rw [hfst] at h
        cases h
        exact .granted hq hphase hstep hget (fun _ => Nat.lt_of_not_ge hm)
  · cases h

theorem dialed_transition {r : ℕ} {outcome : Except ConnectorError ConnectionProtocol}
    (h : s.dialed r outcome = some s') : Transition s (.dialed r outcome) s' := by
  unfold State.dialed at h
  obtain ⟨q,hq,h⟩ := Option.bind_eq_some_iff.mp h
  split at h
  · rename_i c g hest
    split at h
    · cases h
      exact .dialFailed hq hest
    · split at h
      · rename_i hp
        cases h
        exact .opened hq hest fun _ => hp
      · cases h
        exact .dialFailed hq hest
      · rename_i hp
        obtain ⟨w,hw,rfl⟩ := Option.map_eq_some_iff.mp h
        exact .converting hq hest hp hw
    · cases h
      exact .opened hq hest nofun
  · cases h

theorem alpnMark_transition {r : ℕ} (h : s.alpnMark r = some s') : Transition s (.alpnMark r) s' := by
  unfold State.alpnMark at h
  obtain ⟨q,hq,h⟩ := Option.bind_eq_some_iff.mp h
  split at h
  · rename_i c g hest
    obtain ⟨⟨won,w⟩,hw,rfl⟩ := Option.map_eq_some_iff.mp h
    have hstep : s.world.step (.alpnMark g) = some w := by
      simp only [World.step,hw,Option.map_some]
    unfold World.alpnMark at hw
    obtain ⟨guard,hg,hw⟩ := Option.bind_eq_some_iff.mp hw
    split at hw
    · cases hw
    · split at hw
      · rename_i hc
        cases hw
        exact .lost hq hest hstep hg hc rfl
      · cases hw
        refine .won hq hest hstep hg ?_
        rw [Table.get_modify_self,hg]
        rfl
  · cases h

theorem handshaken_transition {r : ℕ} {outcome : Option ℕ} {vanish : ℕ → Bool}
    (h : s.handshaken r outcome vanish = some s') : Transition s (.handshaken r outcome vanish) s' := by
  unfold State.handshaken at h
  obtain ⟨q,hq,h⟩ := Option.bind_eq_some_iff.mp h
  split at h
  · rename_i c g protocol hest
    split at h
    · cases h
      exact .handshakeFailed hq hest
    · rename_i connection
      obtain ⟨⟨p,w⟩,hw,rfl⟩ := Option.map_eq_some_iff.mp h
      refine .pooled hq hest ?_
      simp only [World.step,hw,Option.map_some]
  · cases h

theorem cancel_transition {r : ℕ} (h : s.cancel r = some s') : Transition s (.cancel r) s' := by
  unfold State.cancel at h
  obtain ⟨q,hq,h⟩ := Option.bind_eq_some_iff.mp h
  split at h
  · rename_i c hphase
    cases h
    exact .cancel hq (by rw [hphase]; rfl)
  · rename_i c hphase
    cases h
    exact .cancel hq (by rw [hphase]; rfl)
  · rename_i c k hphase
    split at h
    · rename_i hk
      cases h
      exact .cancel hq (by rw [hphase]; simp [Phase.abandons,hk])
    · cases h
  · rename_i c k hphase
    split at h
    · rename_i hk
      cases h
      exact .cancel hq (by rw [hphase]; simp [Phase.abandons,hk])
    · cases h
  · cases h

theorem finish_transition {r : ℕ} (h : s.finish r = some s') : Transition s (.finish r) s' := by
  unfold State.finish at h
  obtain ⟨q,hq,h⟩ := Option.bind_eq_some_iff.mp h
  split at h
  · rename_i next hphase
    split at h
    · cases h
      exact .finished hq hphase
    · cases h
      exact .cancelled hq hphase
    · split at h
      · cases h
        exact .again hq hphase rfl (Table.get_alloc_self _ _)
      · rename_i hr
        cases h
        exact .gaveUp hq hphase (Bool.eq_false_iff.mpr hr)
  · cases h

/-- Every step of the client is one of the listed transitions. -/
theorem step_transition {a : Action K} (h : s.step a = some s') : Transition s a s' := by
  cases a with
  | request key => cases h; exact .request rfl (Table.get_alloc_self _ _)
  | pollWaiter r => exact pollWaiter_transition h
  | pollCheckout r => exact pollCheckout_transition h
  | connect r => exact connect_transition h
  | dialed r outcome => exact dialed_transition h
  | alpnMark r => exact alpnMark_transition h
  | handshaken r outcome vanish => exact handshaken_transition h
  | cancel r => exact cancel_transition h
  | dropReceiver r =>
    obtain ⟨q,hq,h⟩ := Option.bind_eq_some_iff.mp h
    split at h
    · rename_i hphase
      obtain ⟨w,hw,rfl⟩ := Option.map_eq_some_iff.mp h
      exact .dropReceiver hq hphase hw
    · cases h
  | dropCheckout r =>
    obtain ⟨q,hq,h⟩ := Option.bind_eq_some_iff.mp h
    split at h
    · rename_i hphase
      obtain ⟨w,hw,rfl⟩ := Option.map_eq_some_iff.mp h
      exact .dropCheckout hq hphase hw
    · cases h
  | dropGuard r =>
    obtain ⟨q,hq,h⟩ := Option.bind_eq_some_iff.mp h
    split at h
    · rename_i hphase
      obtain ⟨w,hw,rfl⟩ := Option.map_eq_some_iff.mp h
      exact .dropGuard hq hphase hw
    · cases h
  | finish r => exact finish_transition h
  | release r vanish =>
    obtain ⟨q,hq,h⟩ := Option.bind_eq_some_iff.mp h
    split at h
    · rename_i hphase
      obtain ⟨w,hw,rfl⟩ := Option.map_eq_some_iff.mp h
      exact .release hq hphase hw
    · cases h
  | clearExpired =>
    obtain ⟨w,hw,rfl⟩ := Option.map_eq_some_iff.mp h
    exact .clearExpired hw
  | readiness isOpen => cases h; exact .readiness rfl
  | clock now => cases h; exact .clock rfl

end Inversion
end H12Tiny.Client
