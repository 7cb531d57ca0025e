import H12Tiny.Pool.IdleLists
import Mathlib.Data.List.Find

/-! # Polling a checkout

`Checkout::poll` of the enabled pool. A poll takes the last idle connection that is open
and has not expired. Which one that is does not depend on how often the sweeper has run,
because an entry that is usable now was usable at every earlier time, so the two ways to
evict an entry remove nothing that a poll would take.
-/
namespace H12Tiny.Pool
variable {T K : Type*}

section Pop
variable [Poolable T] {isOpen : T → Bool} {expiration : Option ℕ} {now : ℕ}

theorem popBack_fst (list : List (Idle T)) :
    (popBack isOpen expiration now list).1 = list.find? (fun entry => !stale isOpen expiration now entry) := by
  induction list with
  | nil => rfl
  | cons entry rest ih =>
    rw [popBack,List.find?_cons]
    cases hs : stale isOpen expiration now entry with
    | true =>
      rw [if_pos (by simpa [stale] using hs)]
      simpa using ih
    | false =>
      rw [if_neg (by simpa [stale] using hs),Poolable.reserve_eq]
      cases canShare entry.value <;> rfl

theorem pop_fst (list : List (Idle T)) :
    (pop isOpen expiration now list).1 =
      list.reverse.find? (fun entry => !stale isOpen expiration now entry) := popBack_fst _

end Pop

/-- A run of the sweeper: when it was, and which connections were open then. -/
structure Sweep (T : Type*) where
  now : ℕ
  isOpen : T → Bool

theorem Inner.idleList_clearExpired (inner : Inner T K) (isOpen : T → Bool) (timeout now : ℕ) (key : K) :
    (inner.clearExpired isOpen timeout now).idleList key =
      (inner.idleList key).filter
        (fun entry => isOpen entry.value && decide (now - entry.idleAt ≤ timeout)) := by
  change ((inner.idle key).bind (sweep isOpen timeout now)).getD [] = List.filter _ ((inner.idle key).getD [])
  cases inner.idle key with
  | none => rfl
  | some list =>
    rw [Option.bind_some,sweep,Option.getD_some]
    split
    next h => exact (List.isEmpty_iff.mp h).symm
    next => rfl

variable [DecidableEq K]

namespace World

/-- The entry is open and has been idle for at most the timeout. -/
def Usable (w : World T K) (entry : Idle T) : Prop :=
  w.isOpen entry.value = true ∧ ∀ timeout ∈ w.inner.timeout, w.now - entry.idleAt ≤ timeout

/-- The checkout is not being dropped, and its waiter, if it has one, has neither been
sent a value nor lost its sender. -/
def Waits (w : World T K) (checkout : Checkout K) : Prop :=
  w.receiving checkout = true ∧
  ∀ i ∈ checkout.waiter, ∀ x, w.chans.get i = some x → x.chan.sender = .held

def lastUsable (w : World T K) (key : K) : Option (Idle T) :=
  (w.inner.idleList key).reverse.find? (fun entry => !stale w.isOpen w.inner.timeout w.now entry)

section Poll
variable [Poolable T]

/-- `poll` of a checkout: the waiter is asked first. -/
def poll (w : World T K) (c : ℕ) : Option (Poll (Except CheckoutError ℕ) × World T K) :=
  (w.pollWaiter c).bind fun (polled,w) =>
    match polled with
    | .ready (some result) => some (.ready result,w)
    | _ => (w.checkout c).map fun (found,w) => (found.elim .pending (fun p => .ready (.ok p)),w)

def pollAgain (c : ℕ) : ℕ → World T K → Option (World T K)
  | 0, w => some w
  | n + 1, w =>
    (w.poll c).bind fun (result,w) =>
      match result with
      | .pending => pollAgain c n w
      | .ready _ => none

end Poll

omit [DecidableEq K] in
theorem usable_iff (w : World T K) (entry : Idle T) :
    w.Usable entry ↔ stale w.isOpen w.inner.timeout w.now entry = false := by
  unfold Usable stale expires
  cases w.inner.timeout with
  | none => simp
  | some timeout => simp

omit [DecidableEq K] in
theorem not_usable_iff (w : World T K) (entry : Idle T) :
    ¬ w.Usable entry ↔ stale w.isOpen w.inner.timeout w.now entry = true := by
  rw [usable_iff,Bool.not_eq_false]

section Steps
variable [Poolable T] {w : World T K} {c : ℕ} {co : Checkout K}

theorem poll_of_waits (hok : ChannelsOk w) (hc : w.checkouts.get c = some co) (hw : w.Waits co) :
    w.poll c = (w.checkout c).map fun (found,w) => (found.elim .pending (fun p => .ready (.ok p)),w) := by
  obtain ⟨hreceiving,hheld⟩ := hw
  rcases co with ⟨key,waiter⟩
  unfold poll pollWaiter
  rw [hc]
  cases waiter with
  | none => rfl
  | some i =>
    obtain ⟨x,hx,_⟩ := hok.owned hc rfl
    have hs := hheld i rfl x hx
    have hslot := hok.queues.vacant hx hs
    have hcanceled : x.chan.isCanceled = false := by
      have hreceiver : w.receiving ⟨key,some i⟩ = !w.chans.isCanceled i := rfl
      rw [hreceiver,Channels.isCanceled_of_some hx] at hreceiving
      simpa [Oneshot.isCanceled] using hreceiving
    have hpoll : x.chan.poll = (.pending,x.chan) := by simp [Oneshot.poll,hslot,hs]
    simp only [Option.bind_some,hx,hcanceled,Bool.false_eq_true,if_false,hpoll]

theorem checkout_found (hc : w.checkouts.get c = some co) (hr : w.receiving co = true) {entry : Idle T}
    (hf : w.lastUsable co.key = some entry) :
    ∃ before behind entries, w.inner.idleList co.key = before ++ entry :: behind ∧
      (∀ e ∈ behind, stale w.isOpen w.inner.timeout w.now e = true) ∧
      stale w.isOpen w.inner.timeout w.now entry = false ∧
      entries = (if canShare entry.value then before ++ [⟨entry.value,w.now⟩] else before) ∧
      w.checkout c = some (some w.pooled.next,
        { w with
          inner :=
            { w.inner with
              idle := mapSet w.inner.idle co.key (if entries.isEmpty then none else some entries) }
          pooled := w.pooled.alloc
            ⟨entry.value,true,co.key,!canShare entry.value,!canShare entry.value⟩ }) := by
  cases hi : w.inner.idle co.key with
  | none => simp [lastUsable,Inner.idleList,hi] at hf
  | some list =>
    have hlist : w.inner.idleList co.key = list := by simp [Inner.idleList,hi]
    have hpop : pop w.isOpen w.inner.timeout w.now list =
        (some entry,(pop w.isOpen w.inner.timeout w.now list).2) := by
      rw [lastUsable,hlist] at hf
      exact Prod.ext ((pop_fst list).trans hf) rfl
    obtain ⟨before,behind,hsplit,hbehind,hentry,hentries⟩ := pop_some hpop
    refine ⟨before,behind,_,hlist.trans hsplit,hbehind,hentry,hentries,?_⟩
    unfold checkout
    simp only [hc,Option.bind_some,hr,if_true,hi,Option.map_some]
    rw [hpop]
    rfl

theorem checkout_missed (hc : w.checkouts.get c = some co) (hr : w.receiving co = true)
    (hf : w.lastUsable co.key = none) :
    ∃ i w', w.checkout c = some (none,w') ∧ w'.pooled = w.pooled ∧
      w'.checkouts.get c = some ⟨co.key,some i⟩ ∧
      w'.inner.idle = mapSet w.inner.idle co.key none ∧
      (co.waiter = some i ∧ w'.inner.waiters = w.inner.waiters ∧ w'.chans = w.chans ∧
          w'.checkouts = w.checkouts ∨
        co.waiter = none ∧ i = w.chans.next ∧
          w'.inner.queue = mapSet w.inner.queue co.key (w.inner.queue co.key ++ [i]) ∧
          w'.chans = w.chans.alloc ⟨co.key,Oneshot.channel⟩) := by
  have hnone : ∀ list, w.inner.idle co.key = some list →
      (pop w.isOpen w.inner.timeout w.now list).1 = none := by
    intro list hi
    rw [lastUsable,Inner.idleList,hi] at hf
    exact (pop_fst list).trans hf
  have hpopped : ∀ (found : Option (Idle T)) entries,
      (w.inner.idle co.key).map (pop w.isOpen w.inner.timeout w.now) = some (found,entries) → found = none := by
    intro found entries h
    obtain ⟨list,hi,hpop⟩ := Option.map_eq_some_iff.mp h
    exact (congrArg Prod.fst hpop).symm.trans (hnone list hi)
  rcases co with ⟨key,waiter⟩
  unfold checkout
  rw [hc,Option.bind_some,if_pos hr]
  dsimp only
  split
  next entry entries h => exact absurd (hpopped _ _ h) (Option.some_ne_none _)
  next =>
    cases waiter with
    | some i => exact ⟨i,_,rfl,rfl,hc,rfl,.inl ⟨rfl,rfl,rfl,rfl⟩⟩
    | none =>
      refine ⟨w.chans.next,_,rfl,rfl,by simp [hc],rfl,.inr ⟨rfl,rfl,?_,rfl⟩⟩
      exact Inner.queue_setWaiters { w.inner with idle := mapSet w.inner.idle key none } key _

theorem poll_result (hok : ChannelsOk w) (hc : w.checkouts.get c = some co) (hw : w.Waits co) :
    (w.poll c).map (fun r => (r.1,r.2.pooled)) =
      some ((w.lastUsable co.key).elim (.pending,w.pooled) fun entry =>
        (.ready (.ok w.pooled.next),
          w.pooled.alloc ⟨entry.value,true,co.key,!canShare entry.value,!canShare entry.value⟩)) := by
  rw [poll_of_waits hok hc hw]
  cases hf : w.lastUsable co.key with
  | some entry =>
    obtain ⟨_,_,_,_,_,_,_,hcheckout⟩ := checkout_found hc hw.1 hf
    rw [hcheckout]
    rfl
  | none =>
    obtain ⟨_,_,hcheckout,hpooled,_⟩ := checkout_missed hc hw.1 hf
    rw [hcheckout,← hpooled]
    rfl

theorem pollAgain_of_waits {i : ℕ} (hok : ChannelsOk w) (hc : w.checkouts.get c = some co)
    (hw : w.Waits co) (hi : co.waiter = some i) (hidle : w.inner.idle co.key = none) (n : ℕ) :
    ∃ w', w.pollAgain c n = some w' ∧ w'.inner.waiters = w.inner.waiters ∧ w'.chans = w.chans ∧
      w'.checkouts = w.checkouts := by
  induction n generalizing w with
  | zero => exact ⟨w,rfl,rfl,rfl,rfl⟩
  | succ n ih =>
    have hf : w.lastUsable co.key = none := by simp [lastUsable,Inner.idleList,hidle]
    obtain ⟨_,w',hcheckout,_,_,hempty,hcases⟩ := checkout_missed hc hw.1 hf
    rcases hcases with ⟨_,hwaiters,hchans,hcheckouts⟩ | ⟨hnone,_⟩
    · have hok' : ChannelsOk w' := by
        have hqueue : w'.inner.queue = w.inner.queue := by
          funext k
          rw [Inner.queue,Inner.queue,hwaiters]
        constructor
        · rw [hqueue,hchans]
          exact hok.queues
        · rw [hcheckouts,hchans]
          exact hok.owned
        · rw [hcheckouts]
          exact hok.distinct
      have hwaits' : w'.Waits co := by
        refine ⟨?_,?_⟩
        · have hreceiving := hw.1
          rw [receiving,hi] at hreceiving ⊢
          rw [hchans]
          exact hreceiving
        · rw [hchans]
          exact hw.2
      obtain ⟨w'',hagain,hw'',hchans'',hcheckouts''⟩ := ih hok' (hcheckouts ▸ hc) hwaits'
        (by rw [hempty,mapSet_self])
      refine ⟨w'',?_,hw''.trans hwaiters,hchans''.trans hchans,hcheckouts''.trans hcheckouts⟩
      rw [pollAgain,poll_of_waits hok hc hw,hcheckout]
      exact hagain
    · rw [hi] at hnone
      cases hnone

end Steps

section Swept
variable {w : World T K} {key : K} {timeout : ℕ} {sweeps : List (Sweep T)}

def sweptBy (w : World T K) (timeout : ℕ) (sweeps : List (Sweep T)) : World T K :=
  { w with
    inner := sweeps.foldl (fun inner sweep => inner.clearExpired sweep.isOpen timeout sweep.now) w.inner }

omit [DecidableEq K] in
theorem sweptBy_eq (w : World T K) (timeout : ℕ) (sweeps : List (Sweep T)) :
    ∃ idle, w.sweptBy timeout sweeps = { w with inner := { w.inner with idle := idle } } := by
  induction sweeps generalizing w with
  | nil => exact ⟨w.inner.idle,rfl⟩
  | cons sweep sweeps ih => exact ih { w with inner := w.inner.clearExpired sweep.isOpen timeout sweep.now }

omit [DecidableEq K] in
/-- A sweep that keeps every usable entry does not change which one is the last. -/
theorem find_sweptBy (usable : Idle T → Bool)
    (h : ∀ sweep ∈ sweeps, ∀ entry ∈ w.inner.idleList key, usable entry = true →
      sweep.isOpen entry.value = true ∧ sweep.now - entry.idleAt ≤ timeout) :
    ((w.sweptBy timeout sweeps).inner.idleList key).reverse.find? usable =
      (w.inner.idleList key).reverse.find? usable := by
  induction sweeps generalizing w with
  | nil => rfl
  | cons sweep sweeps ih =>
    obtain ⟨hfirst,hrest⟩ := List.forall_mem_cons.mp h
    have hlist := w.inner.idleList_clearExpired sweep.isOpen timeout sweep.now key
    have hmem : ∀ entry ∈ (w.inner.clearExpired sweep.isOpen timeout sweep.now).idleList key,
        entry ∈ w.inner.idleList key := by
      intro entry he
      rw [hlist] at he
      exact (List.mem_filter.mp he).1
    have hlater := ih (w := { w with inner := w.inner.clearExpired sweep.isOpen timeout sweep.now })
      (fun s hs entry he => hrest s hs entry (hmem entry he))
    refine hlater.trans ?_
    rw [hlist,← List.filter_reverse,List.find?_filter]
    refine List.find?_congr fun entry he => ?_
    cases husable : usable entry with
    | true => simp [hfirst entry (List.mem_reverse.mp he) husable]
    | false => simp

end Swept

section Result
variable [Poolable T] {w w' : World T K} {c : ℕ} {co : Checkout K}

/-- The last usable entry was taken: what stood behind it is gone, what stood before it is
kept, and a shareable entry is back with a new stamp. -/
def Taken (w w' : World T K) (key : K) (p : ℕ) : Prop :=
  ∃ before entry behind, w.inner.idleList key = before ++ entry :: behind ∧ w.Usable entry ∧
    (∀ e ∈ behind, ¬ w.Usable e) ∧ (w'.pooled.get p).map (fun item => (item.value,item.key)) = some (entry.value,key) ∧
    w'.inner.idleList key = before ++ (if canShare entry.value then [⟨entry.value,w.now⟩] else [])

/-- The checkout stands in the queue of its key once, and stays there once however often
it is polled. -/
def Registered (w w' : World T K) (c : ℕ) (co : Checkout K) : Prop :=
  ∃ i, w'.checkouts.get c = some ⟨co.key,some i⟩ ∧ (w'.inner.queue co.key).count i = 1 ∧
    (co.waiter = some i ∧ w'.inner.queue co.key = w.inner.queue co.key ∨
      co.waiter = none ∧ w'.inner.queue co.key = w.inner.queue co.key ++ [i]) ∧
    ∀ n, ∃ w'', w'.pollAgain c n = some w'' ∧ w''.inner.waiters = w'.inner.waiters ∧
      w''.chans = w'.chans ∧ w''.checkouts = w'.checkouts

theorem taken_of_found (hc : w.checkouts.get c = some co) (hr : w.receiving co = true) {entry : Idle T}
    (hf : w.lastUsable co.key = some entry) :
    ∃ w', w.checkout c = some (some w.pooled.next,w') ∧ w.Taken w' co.key w.pooled.next := by
  obtain ⟨before,behind,entries,hlist,hbehind,hentry,hentries,hcheckout⟩ := checkout_found hc hr hf
  refine ⟨_,hcheckout,before,entry,behind,hlist,(w.usable_iff entry).mpr hentry,?_,?_,?_⟩
  · intro e he
    exact (w.not_usable_iff e).mpr (hbehind e he)
  · simp
  · have hleft : (if entries.isEmpty then none else some entries).getD [] = entries := by
      cases entries <;> rfl
    change (mapSet w.inner.idle co.key _ co.key).getD [] = _
    rw [mapSet_self,hleft,hentries]
    split
    · rfl
    · rw [List.append_nil]

theorem registered_of_missed (hok : ChannelsOk w) (hc : w.checkouts.get c = some co) (hw : w.Waits co)
    (hf : w.lastUsable co.key = none) :
    ∃ w', w.checkout c = some (none,w') ∧ w'.inner.idle co.key = none ∧ w.Registered w' c co := by
  obtain ⟨i,w',hcheckout,_,hc',hidle,hcases⟩ := checkout_missed hc hw.1 hf
  have hstep : w.step (.checkout c) = some w' := by
    rw [World.step,hcheckout]
    rfl
  have hok' := (step_transition hstep).channelsOk hok
  have hempty : w'.inner.idle co.key = none := by rw [hidle,mapSet_self]
  -- The waiter is in the queue because its sender is held, and the receiver is there.
  have hchan : ∃ x, w'.chans.get i = some x ∧ x.key = co.key ∧ x.chan.sender = .held ∧ x.chan.receiver = true := by
    rcases hcases with ⟨hwaiter,_,hchans,_⟩ | ⟨_,rfl,_,hchans⟩
    · obtain ⟨x,hx,hkey⟩ := hok.owned hc hwaiter
      refine ⟨x,hchans ▸ hx,hkey,hw.2 i hwaiter x hx,?_⟩
      have hreceiving := hw.1
      rw [receiving,hwaiter] at hreceiving
      simpa [Channels.isCanceled_of_some hx] using hreceiving
    · rw [hchans]
      exact ⟨_,Table.get_alloc_self _ _,rfl,rfl,rfl⟩
  obtain ⟨x,hx,hkey,hheld,hreceiver⟩ := hchan
  have hwaits' : w'.Waits ⟨co.key,some i⟩ := by
    refine ⟨?_,?_⟩
    · have hreceiving : w'.receiving ⟨co.key,some i⟩ = !w'.chans.isCanceled i := rfl
      simp [hreceiving,Channels.isCanceled_of_some hx,hreceiver]
    · intro j hj y hy
      cases hj
      rw [hx] at hy
      cases hy
      exact hheld
  refine ⟨w',hcheckout,hempty,i,hc',?_,?_,pollAgain_of_waits hok' hc' hwaits' rfl hempty⟩
  · exact List.count_eq_one_of_mem (hok'.queues.nodup _) (hkey ▸ hok'.queues.held hx hheld)
  · rcases hcases with ⟨hwaiter,hwaiters,_⟩ | ⟨hnone,_,hqueue,_⟩
    · exact .inl ⟨hwaiter,by rw [Inner.queue,Inner.queue,hwaiters]⟩
    · exact .inr ⟨hnone,by rw [hqueue,mapSet_self]⟩

/-- A sweeper that ran before now and found open whatever is open now. -/
def Earlier (w : World T K) (key : K) (sweeps : List (Sweep T)) : Prop :=
  ∀ sweep ∈ sweeps, sweep.now ≤ w.now ∧
    ∀ entry ∈ w.inner.idleList key, w.isOpen entry.value = true → sweep.isOpen entry.value = true

theorem poll_sweptBy (hok : ChannelsOk w) (hc : w.checkouts.get c = some co) (hw : w.Waits co)
    {timeout : ℕ} (ht : timeout ∈ w.inner.timeout) {sweeps : List (Sweep T)} (hs : w.Earlier co.key sweeps) :
    ((w.sweptBy timeout sweeps).poll c).map (fun r => (r.1,r.2.pooled)) =
      (w.poll c).map (fun r => (r.1,r.2.pooled)) := by
  have husable : ∀ sweep ∈ sweeps, ∀ entry ∈ w.inner.idleList co.key,
      (!stale w.isOpen w.inner.timeout w.now entry) = true →
      sweep.isOpen entry.value = true ∧ sweep.now - entry.idleAt ≤ timeout := by
    intro sweep hsweep entry hentry hfresh
    obtain ⟨hopen,hexpires⟩ := (w.usable_iff entry).mpr (by simpa using hfresh)
    have hle := hexpires timeout ht
    have hnow := (hs sweep hsweep).1
    exact ⟨(hs sweep hsweep).2 entry hentry hopen,by omega⟩
  have hfind := find_sweptBy _ husable
  obtain ⟨idle,hidle⟩ := w.sweptBy_eq timeout sweeps
  rw [hidle] at hfind ⊢
  have hok' : ChannelsOk { w with inner := { w.inner with idle := idle } } :=
    ⟨hok.queues,hok.owned,hok.distinct⟩
  rw [poll_result hok hc hw,poll_result hok' hc hw]
  exact congrArg (fun found => some (Option.elim found _ _)) hfind

/-- Polling a checkout without news takes the last usable entry if there is one, and
otherwise leaves the checkout registered once. An additional run of the sweeper changes
nothing about it. -/
theorem poll_takes_last {allowed : World T K → Action T K → Prop} {config : Config} {timer : Bool}
    {w₀ : World T K} (h₀ : World.new config timer = some w₀) (h : Reaches World.step allowed w₀ w)
    (hc : w.checkouts.get c = some co) (hw : w.Waits co) :
    ∃ result w', w.poll c = some (result,w') ∧
      ((∃ p, result = .ready (.ok p)) ↔ ∃ entry ∈ w.inner.idleList co.key, w.Usable entry) ∧
      (∀ p, result = .ready (.ok p) → w.Taken w' co.key p) ∧
      ((¬ ∃ p, result = .ready (.ok p)) →
        result = .pending ∧ w'.inner.idle co.key = none ∧ w.Registered w' c co) ∧
      ∀ timeout ∈ w.inner.timeout, ∀ sweeps, w.Earlier co.key sweeps →
        ((w.sweptBy timeout sweeps).poll c).map (fun r => (r.1,r.2.pooled)) = some (result,w'.pooled) := by
  have hok := reaches_channelsOk h₀ h
  have hpoll := poll_of_waits hok hc hw
  cases hf : w.lastUsable co.key with
  | some entry =>
    obtain ⟨w',hcheckout,htaken⟩ := taken_of_found hc hw.1 hf
    rw [hcheckout] at hpoll
    refine ⟨_,w',hpoll,?_,?_,?_,?_⟩
    · refine iff_of_true ⟨_,rfl⟩ ⟨entry,?_,?_⟩
      · exact List.mem_reverse.mp (List.mem_of_find?_eq_some hf)
      · exact (w.usable_iff entry).mpr (by simpa using List.find?_some hf)
    · intro p hp
      cases hp
      exact htaken
    · intro hno
      exact absurd ⟨_,rfl⟩ hno
    · intro timeout ht sweeps hs
      rw [poll_sweptBy hok hc hw ht hs,hpoll]
      rfl
  | none =>
    obtain ⟨w',hcheckout,hempty,hregistered⟩ := registered_of_missed hok hc hw hf
    rw [hcheckout] at hpoll
    refine ⟨_,w',hpoll,?_,nofun,fun _ => ⟨rfl,hempty,hregistered⟩,?_⟩
    · refine iff_of_false nofun ?_
      rintro ⟨entry,hentry,husable⟩
      have hstale := List.find?_eq_none.mp hf entry (List.mem_reverse.mpr hentry)
      exact hstale (by simpa using (w.usable_iff entry).mp husable)
    · intro timeout ht sweeps hs
      rw [poll_sweptBy hok hc hw ht hs,hpoll]
      rfl

/-- Three connections lie idle, the first for too long and the last closed meanwhile, so the
one in between is taken. -/
theorem poll_takes_last_returned : ∃ w₀ w : World PoolClient ℕ,
    World.new ⟨some 5,3,3⟩ true = some w₀ ∧ Reaches World.step (fun _ _ => True) w₀ w ∧
    w.inner.idleList 0 = [⟨⟨.http1 7⟩,0⟩,⟨⟨.http1 8⟩,3⟩,⟨⟨.http1 9⟩,3⟩] ∧
    ∃ result w', w.poll 0 = some (result,w') ∧ ∃ p, result = .ready (.ok p) ∧ w.Taken w' 0 p := by
  obtain ⟨w₀,w,h₀,hrun,hc,hidle,hopen,htimeout,hnow⟩ : ∃ w₀ w : World PoolClient ℕ,
      World.new ⟨some 5,3,3⟩ true = some w₀ ∧
      runActions World.step w₀ [.connecting 0 .http1,.connecting 0 .http1,.connecting 0 .http1,
        .pooled 0 ⟨.http1 7⟩ fun _ => false,.pooled 1 ⟨.http1 8⟩ fun _ => false,
        .pooled 2 ⟨.http1 9⟩ fun _ => false,.dropPooled 0 fun _ => false,.clock 3,
        .dropPooled 1 fun _ => false,.dropPooled 2 fun _ => false,.newCheckout 0,
        .readiness fun value => value ≠ ⟨.http1 9⟩,.clock 6] = some w ∧
      w.checkouts.get 0 = some ⟨0,none⟩ ∧
      w.inner.idleList 0 = [⟨⟨.http1 7⟩,0⟩,⟨⟨.http1 8⟩,3⟩,⟨⟨.http1 9⟩,3⟩] ∧
      w.isOpen ⟨.http1 8⟩ = true ∧ w.inner.timeout = some 5 ∧ w.now = 6 :=
    ⟨_,_,rfl,rfl,rfl,rfl,rfl,rfl,rfl⟩
  have hr : Reaches World.step (fun _ _ => True) w₀ w :=
    .ofRun (allowedAlong_of_forall (fun _ _ _ => trivial)) hrun
  have husable : w.Usable ⟨⟨.http1 8⟩,3⟩ := by
    refine ⟨hopen,fun timeout ht => ?_⟩
    rw [htimeout] at ht
    cases ht
    rw [hnow]
    decide
  obtain ⟨result,w',hpoll,hiff,htaken,-⟩ := poll_takes_last h₀ hr hc ⟨rfl,nofun⟩
  obtain ⟨p,hp⟩ := hiff.mpr ⟨_,by rw [hidle]; simp,husable⟩
  exact ⟨w₀,w,h₀,hr,hidle,result,w',hpoll,p,hp,htaken p hp⟩

end Result
end World
end H12Tiny.Pool
