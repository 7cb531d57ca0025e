import H12Tiny.Pool.Handover

/-! # Inversion of the pool's steps

`Transition` lists every way an action can change the world, with the facts the
branch was taken under. It is derived from the step function once; the invariants
are proved by a case split over it and never look at the step function.
-/
namespace H12Tiny.Pool
variable {T K : Type*} [DecidableEq K] [Poolable T]

def Channels.received (x : Waiter T K) : Waiter T K := { x with chan := x.chan.dropReceiver }

inductive Transition (w : World T K) : Action T K → World T K → Prop
  | markRefused {key : K} : w.inner.connecting key = true → Transition w (.connecting key .http2) w
  | marked {key : K} : w.inner.connecting key = false →
      Transition w (.connecting key .http2)
        { w with
          inner := { w.inner with connecting := mapSet w.inner.connecting key true }
          guards := w.guards.alloc ⟨key,true,false⟩ }
  | reserveRefused {key : K} {protocol : Protocol} : protocol ≠ .http2 →
      w.inner.maxH1ConnectionsPerHost ≤ w.inner.h1Count key →
      Transition w (.connecting key protocol)
        { w with
          inner :=
            { w.inner with
              h1Connections := mapSet w.inner.h1Connections key (some (w.inner.h1Count key)) } }
  | reserved {key : K} {protocol : Protocol} : protocol ≠ .http2 →
      w.inner.h1Count key < w.inner.maxH1ConnectionsPerHost →
      Transition w (.connecting key protocol)
        { w with
          inner :=
            { w.inner with
              h1Connections := mapSet w.inner.h1Connections key (some (w.inner.h1Count key + 1)) }
          guards := w.guards.alloc ⟨key,true,true⟩ }
  | pooledShared {g : ℕ} {guard : Connecting K} {value : T} {vanish : ℕ → Bool} {kept : Bool}
      {inner : Inner T K} {chans : Channels T K} :
      w.guards.get g = some guard → guard.pool = true → canShare value = true →
      Inner.PutOutcome vanish w.now w.inner w.chans guard.key value kept inner chans →
      Transition w (.pooled g value vanish)
        { w with
          inner := (inner.connected chans guard.key).1
          chans := (inner.connected chans guard.key).2
          guards := w.guards.remove g
          pooled := w.pooled.alloc ⟨value,false,guard.key,false,false⟩ }
  | pooledUnique {g : ℕ} {guard : Connecting K} {value : T} {vanish : ℕ → Bool} :
      w.guards.get g = some guard → guard.pool = true → canShare value = false →
      Transition w (.pooled g value vanish)
        { w with
          guards := w.guards.remove g
          pooled := w.pooled.alloc ⟨value,false,guard.key,true,guard.h1Slot⟩ }
  | alpnRelease {g : ℕ} {guard : Connecting K} :
      w.guards.get g = some guard → guard.pool = true →
      Transition w (.alpnRelease g)
        { w with
          inner := if guard.h1Slot then w.inner.releaseH1Slot guard.key else w.inner
          guards := w.guards.modify g (fun guard => { guard with h1Slot := false, pool := false }) }
  | alpnLost {g : ℕ} {guard : Connecting K} :
      w.guards.get g = some guard → guard.pool = false → w.inner.connecting guard.key = true →
      Transition w (.alpnMark g) { w with guards := w.guards.remove g }
  | alpnWon {g : ℕ} {guard : Connecting K} :
      w.guards.get g = some guard → guard.pool = false → w.inner.connecting guard.key = false →
      Transition w (.alpnMark g)
        { w with
          inner := { w.inner with connecting := mapSet w.inner.connecting guard.key true }
          guards := w.guards.modify g (fun guard => { guard with pool := true, h1Slot := false }) }
  | newCheckout {key : K} :
      Transition w (.newCheckout key) { w with checkouts := w.checkouts.alloc ⟨key,none⟩ }
  | pollIdle {c : ℕ} : Transition w (.pollWaiter c) w
  | pollOpen {c i : ℕ} {checkout : Checkout K} {x : Waiter T K} {value : T} :
      w.checkouts.get c = some checkout → checkout.waiter = some i → w.chans.get i = some x →
      x.chan.receiver = true → x.chan.slot = some value → w.isOpen value = true →
      Transition w (.pollWaiter c)
        { w with
          chans := w.chans.modify i Channels.received
          checkouts := w.checkouts.modify c (fun checkout => { checkout with waiter := none })
          pooled := w.pooled.alloc ⟨value,true,checkout.key,!canShare value,!canShare value⟩ }
  | pollClosed {c i : ℕ} {checkout : Checkout K} {x : Waiter T K} {value : T} :
      w.checkouts.get c = some checkout → checkout.waiter = some i → w.chans.get i = some x →
      x.chan.receiver = true → x.chan.slot = some value → w.isOpen value = false →
      Transition w (.pollWaiter c)
        { w with
          chans := w.chans.modify i Channels.received
          checkouts := w.checkouts.modify c (fun checkout => { checkout with waiter := none }) }
  | pollDropped {c i : ℕ} {checkout : Checkout K} {x : Waiter T K} :
      w.checkouts.get c = some checkout → checkout.waiter = some i → w.chans.get i = some x →
      x.chan.receiver = true → x.chan.slot = none → x.chan.sender ≠ .held →
      Transition w (.pollWaiter c)
        { w with
          chans := w.chans.modify i Channels.received
          checkouts := w.checkouts.modify c (fun checkout => { checkout with waiter := none }) }
  | popped {c : ℕ} {checkout : Checkout K} {list entries : List (Idle T)} {entry : Idle T} :
      w.checkouts.get c = some checkout → w.receiving checkout = true →
      w.inner.idle checkout.key = some list →
      pop w.isOpen w.inner.timeout w.now list = (some entry,entries) →
      Transition w (.checkout c)
        { w with
          inner :=
            { w.inner with
              idle := mapSet w.inner.idle checkout.key (if entries.isEmpty then none else some entries) }
          pooled := w.pooled.alloc
            ⟨entry.value,true,checkout.key,!canShare entry.value,!canShare entry.value⟩ }
  | missed {c i : ℕ} {checkout : Checkout K} :
      w.checkouts.get c = some checkout → w.receiving checkout = true → checkout.waiter = some i →
      (∀ list, w.inner.idle checkout.key = some list →
        (pop w.isOpen w.inner.timeout w.now list).1 = none) →
      Transition w (.checkout c)
        { w with inner := { w.inner with idle := mapSet w.inner.idle checkout.key none } }
  | registered {c : ℕ} {checkout : Checkout K} :
      w.checkouts.get c = some checkout → checkout.waiter = none →
      (∀ list, w.inner.idle checkout.key = some list →
        (pop w.isOpen w.inner.timeout w.now list).1 = none) →
      Transition w (.checkout c)
        { w with
          inner :=
            { w.inner with
              idle := mapSet w.inner.idle checkout.key none
              waiters := mapSet w.inner.waiters checkout.key
                (some (w.inner.queue checkout.key ++ [w.chans.next])) }
          chans := w.chans.alloc ⟨checkout.key,Oneshot.channel⟩
          checkouts := w.checkouts.modify c
            (fun checkout => { checkout with waiter := some w.chans.next }) }
  | droppedClosed {p : ℕ} {item : Pooled T K} {vanish : ℕ → Bool} :
      w.pooled.get p = some item → w.isOpen item.value = false →
      Transition w (.dropPooled p vanish)
        { w with
          pooled := w.pooled.remove p
          inner := if item.h1Slot && item.pool then w.inner.releaseH1Slot item.key else w.inner }
  | droppedPut {p : ℕ} {item : Pooled T K} {vanish : ℕ → Bool} {kept : Bool}
      {inner : Inner T K} {chans : Channels T K} :
      w.pooled.get p = some item → w.isOpen item.value = true → item.pool = true →
      Inner.PutOutcome vanish w.now w.inner w.chans item.key item.value kept inner chans →
      Transition w (.dropPooled p vanish)
        { w with
          pooled := w.pooled.remove p
          inner := if !kept && item.h1Slot then inner.releaseH1Slot item.key else inner
          chans := chans }
  | droppedDetached {p : ℕ} {item : Pooled T K} {vanish : ℕ → Bool} :
      w.pooled.get p = some item → w.isOpen item.value = true → item.pool = false →
      Transition w (.dropPooled p vanish) { w with pooled := w.pooled.remove p }
  | cancelCheckout {c i : ℕ} {checkout : Checkout K} :
      w.checkouts.get c = some checkout → checkout.waiter = some i →
      Transition w (.cancelCheckout c) { w with chans := w.chans.modify i Channels.received }
  | dropCheckout {c : ℕ} {checkout : Checkout K} :
      w.checkouts.get c = some checkout → checkout.waiter = none →
      Transition w (.dropCheckout c) { w with checkouts := w.checkouts.remove c }
  | cleanCheckout {c i : ℕ} {checkout : Checkout K} :
      w.checkouts.get c = some checkout → checkout.waiter = some i → w.chans.isCanceled i = true →
      Transition w (.dropCheckout c)
        { w with
          inner := (w.inner.cleanWaiters w.chans checkout.key).1
          chans := (w.inner.cleanWaiters w.chans checkout.key).2
          checkouts := w.checkouts.remove c }
  | dropConnecting {g : ℕ} {guard : Connecting K} :
      w.guards.get g = some guard → guard.pool = true →
      Transition w (.dropConnecting g)
        { w with
          inner := (w.inner.connectingCancelled w.chans guard.key guard.h1Slot).1
          chans := (w.inner.connectingCancelled w.chans guard.key guard.h1Slot).2
          guards := w.guards.remove g }
  | clearExpired {timeout : ℕ} : w.inner.timeout = some timeout →
      Transition w .clearExpired { w with inner := w.inner.clearExpired w.isOpen timeout w.now }
  | readiness {isOpen : T → Bool} : Transition w (.readiness isOpen) { w with isOpen := isOpen }
  | clock {now : ℕ} : Transition w (.clock now) { w with now := now }

section Inversion
variable {w w' : World T K}

theorem connecting_transition (key : K) (protocol : Protocol) :
    Transition w (.connecting key protocol) (w.connecting key protocol).2 := by
  unfold World.connecting
  by_cases hp : protocol = .http2
  · subst hp
    rw [if_pos rfl]
    cases hc : w.inner.connecting key with
    | true => exact .markRefused hc
    | false => exact .marked hc
  · rw [if_neg hp]
    by_cases hm : w.inner.maxH1ConnectionsPerHost ≤ w.inner.h1Count key
    · have h := Transition.reserveRefused hp hm
      simpa [Inner.reserveH1Slot,hm] using h
    · have h := Transition.reserved hp (Nat.lt_of_not_ge hm)
      simpa [Inner.reserveH1Slot,hm] using h

theorem makePooled_transition {g n : ℕ} {value : T} {vanish : ℕ → Bool}
    (h : w.makePooled g value vanish = some (n,w')) : Transition w (.pooled g value vanish) w' := by
  unfold World.makePooled at h
  obtain ⟨guard,hg,h⟩ := Option.bind_eq_some_iff.mp h
  by_cases hp : guard.pool = true
  · rw [if_pos hp,Poolable.reserve_eq] at h
    cases hs : canShare value with
    | true =>
      rw [hs,if_pos rfl] at h
      obtain ⟨kept,inner,chans,he,ho⟩ := Inner.put_outcome vanish w.now w.inner w.chans guard.key value
      simp only [he,Option.map_some] at h
      cases h
      exact .pooledShared hg hp hs ho
    | false =>
      rw [hs,if_neg Bool.false_ne_true] at h
      cases h
      exact .pooledUnique hg hp hs
  · rw [if_neg hp] at h
    cases h

theorem alpnRelease_transition {g : ℕ} (h : w.alpnRelease g = some w') :
    Transition w (.alpnRelease g) w' := by
  unfold World.alpnRelease at h
  obtain ⟨guard,hg,h⟩ := Option.bind_eq_some_iff.mp h
  by_cases hp : guard.pool = true
  · rw [if_pos hp] at h
    cases h
    exact .alpnRelease hg hp
  · rw [if_neg hp] at h
    cases h

theorem alpnMark_transition {g : ℕ} {won : Bool} (h : w.alpnMark g = some (won,w')) :
    Transition w (.alpnMark g) w' := by
  unfold World.alpnMark at h
  obtain ⟨guard,hg,h⟩ := Option.bind_eq_some_iff.mp h
  cases hp : guard.pool with
  | true => simp [hp] at h
  | false =>
    cases hc : w.inner.connecting guard.key with
    | true =>
      simp only [hp,hc,Bool.false_eq_true,if_false,if_true] at h
      cases h
      exact .alpnLost hg hp hc
    | false =>
      simp only [hp,hc,Bool.false_eq_true,if_false] at h
      cases h
      exact .alpnWon hg hp hc

theorem pollWaiter_transition {c : ℕ} {r : Poll (Option (Except CheckoutError ℕ))}
    (h : w.pollWaiter c = some (r,w')) : Transition w (.pollWaiter c) w' := by
  unfold World.pollWaiter at h
  obtain ⟨checkout,hc,h⟩ := Option.bind_eq_some_iff.mp h
  cases hw : checkout.waiter with
  | none =>
    simp only [hw] at h
    cases h
    exact .pollIdle
  | some i =>
    simp only [hw] at h
    obtain ⟨x,hx,h⟩ := Option.bind_eq_some_iff.mp h
    cases hr : x.chan.receiver with
    | false => simp [Oneshot.isCanceled,hr] at h
    | true =>
      simp only [Oneshot.isCanceled,hr,Bool.not_true,Bool.false_eq_true,if_false] at h
      have hmod : ∀ y, y = x.chan.dropReceiver →
          w.chans.modify i (fun waiter => { waiter with chan := y }) =
            w.chans.modify i Channels.received := by
        rintro y rfl
        apply Table.ext
        · funext j
          by_cases hj : j = i
          · subst hj; simp [hx,Channels.received]
          · simp [Table.get_modify,hj]
        · rfl
      cases hs : x.chan.slot with
      | some value =>
        simp only [Oneshot.poll,hs] at h
        cases ho : w.isOpen value with
        | true =>
          simp only [ho,if_true] at h
          cases h
          rw [hmod _ rfl]
          exact .pollOpen hc hw hx hr hs ho
        | false =>
          simp only [ho,Bool.false_eq_true,if_false] at h
          cases h
          rw [hmod _ rfl]
          exact .pollClosed hc hw hx hr hs ho
      | none =>
        cases ht : x.chan.sender with
        | held =>
          simp only [Oneshot.poll,hs,ht] at h
          cases h
          exact .pollIdle
        | sent =>
          simp only [Oneshot.poll,hs,ht] at h
          cases h
          rw [hmod _ rfl]
          exact .pollDropped hc hw hx hr hs (by simp [ht])
        | dropped =>
          simp only [Oneshot.poll,hs,ht] at h
          cases h
          rw [hmod _ rfl]
          exact .pollDropped hc hw hx hr hs (by simp [ht])

theorem checkout_transition {c : ℕ} {r : Option ℕ} (h : w.checkout c = some (r,w')) :
    Transition w (.checkout c) w' := by
  unfold World.checkout at h
  obtain ⟨checkout,hc,h⟩ := Option.bind_eq_some_iff.mp h
  by_cases hrec : w.receiving checkout = true
  · rw [if_pos hrec] at h
    dsimp only at h
    split at h
    · rename_i entry entries hp
      obtain ⟨list,hi,hpop⟩ := Option.map_eq_some_iff.mp hp
      cases h
      exact .popped hc hrec hi hpop
    · rename_i hp
      have hnone : ∀ list, w.inner.idle checkout.key = some list →
          (pop w.isOpen w.inner.timeout w.now list).1 = none := by
        intro list hi
        cases hpop : pop w.isOpen w.inner.timeout w.now list with
        | mk entry entries =>
          cases entry with
          | none => rfl
          | some entry => exact (hp entry entries (by rw [hi,Option.map_some,hpop])).elim
      cases hw : checkout.waiter with
      | some i =>
        simp only [hw] at h
        cases h
        exact .missed hc hrec hw hnone
      | none =>
        simp only [hw] at h
        cases h
        exact .registered hc hw hnone
  · rw [if_neg hrec] at h
    cases h

theorem dropPooled_transition {p : ℕ} {vanish : ℕ → Bool} (h : w.dropPooled p vanish = some w') :
    Transition w (.dropPooled p vanish) w' := by
  unfold World.dropPooled at h
  obtain ⟨item,hi,h⟩ := Option.bind_eq_some_iff.mp h
  cases ho : w.isOpen item.value with
  | false =>
    simp only [ho,Bool.not_false,if_true] at h
    cases h
    exact .droppedClosed hi ho
  | true =>
    simp only [ho,Bool.not_true,Bool.false_eq_true,if_false] at h
    cases hp : item.pool with
    | true =>
      obtain ⟨kept,inner,chans,he,hout⟩ := Inner.put_outcome vanish w.now w.inner w.chans item.key item.value
      simp only [hp,if_true,he,Option.map_some] at h
      cases h
      exact .droppedPut hi ho hp hout
    | false =>
      simp only [hp,Bool.false_eq_true,if_false] at h
      cases h
      exact .droppedDetached hi ho hp

theorem dropCheckout_transition {c : ℕ} (h : w.dropCheckout c = some w') :
    Transition w (.dropCheckout c) w' := by
  unfold World.dropCheckout at h
  obtain ⟨checkout,hc,h⟩ := Option.bind_eq_some_iff.mp h
  cases hw : checkout.waiter with
  | none =>
    simp only [hw] at h
    cases h
    exact .dropCheckout hc hw
  | some i =>
    cases hcan : w.chans.isCanceled i with
    | true =>
      simp only [hw,hcan,if_true] at h
      cases h
      exact .cleanCheckout hc hw hcan
    | false => simp [hw,hcan] at h

/-- Every step of the pool is one of the listed transitions. -/
theorem step_transition {a : Action T K} (h : w.step a = some w') : Transition w a w' := by
  cases a with
  | connecting key protocol => cases h; exact connecting_transition key protocol
  | pooled g value vanish =>
    obtain ⟨⟨n,u⟩,he,rfl⟩ := Option.map_eq_some_iff.mp h
    exact makePooled_transition he
  | alpnRelease g => exact alpnRelease_transition h
  | alpnMark g =>
    obtain ⟨⟨won,u⟩,he,rfl⟩ := Option.map_eq_some_iff.mp h
    exact alpnMark_transition he
  | newCheckout key => cases h; exact .newCheckout
  | pollWaiter c =>
    obtain ⟨⟨r,u⟩,he,rfl⟩ := Option.map_eq_some_iff.mp h
    exact pollWaiter_transition he
  | checkout c =>
    obtain ⟨⟨r,u⟩,he,rfl⟩ := Option.map_eq_some_iff.mp h
    exact checkout_transition he
  | dropPooled p vanish => exact dropPooled_transition h
  | cancelCheckout c =>
    obtain ⟨checkout,hc,h⟩ := Option.bind_eq_some_iff.mp h
    obtain ⟨i,hi,rfl⟩ := Option.map_eq_some_iff.mp h
    exact .cancelCheckout hc hi
  | dropCheckout c => exact dropCheckout_transition h
  | dropConnecting g =>
    obtain ⟨guard,hg,h⟩ := Option.bind_eq_some_iff.mp h
    by_cases hp : guard.pool = true
    · rw [if_pos hp] at h
      cases h
      exact .dropConnecting hg hp
    · rw [if_neg hp] at h
      cases h
  | clearExpired =>
    simp only [World.step,World.clearExpired] at h
    split at h
    · obtain ⟨timeout,ht,rfl⟩ := Option.map_eq_some_iff.mp h
      exact .clearExpired ht
    · cases h
  | readiness isOpen => cases h; exact .readiness
  | clock now => cases h; exact .clock

end Inversion
end H12Tiny.Pool
