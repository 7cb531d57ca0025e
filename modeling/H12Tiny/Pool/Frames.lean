import H12Tiny.Pool.IdleLists

/-! # What a pool step leaves alone

An action names the guard and the checkout it is performed on. Every other guard
and checkout is untouched, the channel of another checkout keeps its receiver, and
its sender is used or dropped only in the ways the callers have to reckon with.
-/
namespace H12Tiny.Pool
variable {T K : Type*} [DecidableEq K]

namespace Action

def guard? : Action T K → Option ℕ
  | .pooled g _ _ => some g
  | .alpnRelease g => some g
  | .alpnMark g => some g
  | .dropConnecting g => some g
  | _ => none

def checkout? : Action T K → Option ℕ
  | .pollWaiter c => some c
  | .checkout c => some c
  | .cancelCheckout c => some c
  | .dropCheckout c => some c
  | _ => none

/-- The receivers that vanish while the action hands a value over. -/
def vanishes : Action T K → ℕ → Bool
  | .pooled _ _ vanish => vanish
  | .dropPooled _ vanish => vanish
  | _ => fun _ => false

end Action

section Handles
variable [Poolable T] {w w' : World T K} {a : Action T K}

theorem Transition.guard_frame (ht : Transition w a w') {g : ℕ} {guard : Connecting K}
    (hg : w.guards.get g = some guard) (hn : a.guard? ≠ some g) : w'.guards.get g = some guard := by
  have hne : ∀ {g' : ℕ}, some g' ≠ some g → g ≠ g' := fun h he => h (congrArg some he.symm)
  cases ht with
  | marked | reserved => exact Table.get_alloc_of_some _ hg
  | pooledShared | pooledUnique | alpnLost | dropConnecting =>
    exact (Table.get_remove_ne _ (hne hn)).trans hg
  | alpnRelease | alpnWon => exact (Table.get_modify_ne _ _ (hne hn)).trans hg
  | _ => exact hg

theorem Transition.checkout_frame (ht : Transition w a w') {c : ℕ} {checkout : Checkout K}
    (hc : w.checkouts.get c = some checkout) (hn : a.checkout? ≠ some c) :
    w'.checkouts.get c = some checkout := by
  have hne : ∀ {c' : ℕ}, some c' ≠ some c → c ≠ c' := fun h he => h (congrArg some he.symm)
  cases ht with
  | newCheckout => exact Table.get_alloc_of_some _ hc
  | pollOpen | pollClosed | pollDropped | registered =>
    exact (Table.get_modify_ne _ _ (hne hn)).trans hc
  | dropCheckout | cleanCheckout => exact (Table.get_remove_ne _ (hne hn)).trans hc
  | _ => exact hc

theorem Transition.checkout_key (ht : Transition w a w') {c : ℕ} {checkout : Checkout K}
    (hc : w.checkouts.get c = some checkout) (hn : a ≠ .dropCheckout c) :
    ∃ checkout', w'.checkouts.get c = some checkout' ∧ checkout'.key = checkout.key := by
  have hmod : ∀ {c' : ℕ} {waiter : Option ℕ}, ∃ checkout',
      (w.checkouts.modify c' (fun checkout => { checkout with waiter := waiter })).get c =
        some checkout' ∧ checkout'.key = checkout.key := by
    intro c' waiter
    by_cases he : c = c'
    · subst he
      exact ⟨{ checkout with waiter := waiter },by rw [Table.get_modify_self,hc]; rfl,rfl⟩
    · exact ⟨checkout,(Table.get_modify_ne _ _ he).trans hc,rfl⟩
  cases ht with
  | newCheckout => exact ⟨checkout,Table.get_alloc_of_some _ hc,rfl⟩
  | pollOpen | pollClosed | pollDropped | registered => exact hmod
  | @dropCheckout c' | @cleanCheckout c' =>
    have hne : c ≠ c' := by
      rintro rfl
      exact hn rfl
    exact ⟨checkout,(Table.get_remove_ne _ hne).trans hc,rfl⟩
  | _ => exact ⟨checkout,hc,rfl⟩

end Handles

section Channel
variable [Poolable T]

omit [DecidableEq K] in
/-- A channel whose receiver is alive keeps it through the hand-over, and its
sender is not dropped there. -/
theorem HandOver.live {vanish : ℕ → Bool} {v : T} {q rest : List ℕ} {chans chans' : Channels T K}
    {left : Option T} (hh : HandOver vanish v q chans left rest chans') {i : ℕ} {x : Waiter T K}
    (hx : chans.get i = some x) (hr : x.chan.receiver = true) (hv : vanish i = false) :
    ∃ x', chans'.get i = some x' ∧ x'.chan.receiver = true ∧
      (x.chan.sender ≠ .dropped → x'.chan.sender ≠ .dropped) := by
  have hdeliver : ∀ {chans : Channels T K} {x : Waiter T K} (j : ℕ), chans.get i = some x →
      x.chan.receiver = true → ∃ y, (chans.modify j (Channels.delivered v)).get i = some y ∧
        y.chan.receiver = true ∧ (x.chan.sender ≠ .dropped → y.chan.sender ≠ .dropped) := by
    intro chans x j hx hr
    by_cases he : i = j
    · subst he
      exact ⟨Channels.delivered v x,by rw [Table.get_modify_self,hx]; rfl,hr,fun _ => nofun⟩
    · exact ⟨x,(Table.get_modify_ne _ _ he).trans hx,hr,id⟩
  induction hh generalizing x with
  | exhausted => exact ⟨x,hx,hr,id⟩
  | unique => exact hdeliver _ hx hr
  | @canceled j ws rest chans chans' left hc _ ih =>
    have hne : i ≠ j := by
      rintro rfl
      rw [Channels.isCanceled_of_some hx,hr] at hc
      cases hc
    exact ih ((Table.get_modify_ne _ _ hne).trans hx) hr
  | @vanished j ws rest chans chans' left hc hvj _ ih =>
    have hne : i ≠ j := by
      rintro rfl
      rw [hv] at hvj
      cases hvj
    exact ih ((Table.get_modify_ne _ _ hne).trans hx) hr
  | shared _ _ _ _ ih =>
    obtain ⟨y,hy,hyr,hys⟩ := hdeliver _ hx hr
    obtain ⟨x',hx',hr',hs'⟩ := ih hy hyr
    exact ⟨x',hx',hr',fun h => hs' (hys h)⟩

/-- A value that was sent is in the channel until the receiver takes it. -/
def SentOk (chans : Channels T K) : Prop :=
  ∀ ⦃i x⦄, chans.get i = some x → x.chan.receiver = true → x.chan.sender = .sent →
    x.chan.slot.isSome = true

omit [DecidableEq K] [Poolable T] in
theorem SentOk.modify {chans : Channels T K} (h : SentOk chans) (i : ℕ)
    {f : Waiter T K → Waiter T K}
    (hf : ∀ x, (x.chan.receiver = true → x.chan.sender = .sent → x.chan.slot.isSome = true) →
      (f x).chan.receiver = true → (f x).chan.sender = .sent → (f x).chan.slot.isSome = true) :
    SentOk (chans.modify i f) := by
  intro j y hy hr hs
  rcases Table.get_modify_cases hy with ⟨_,x,hx,rfl⟩ | ⟨_,hy⟩
  · exact hf x (h hx) hr hs
  · exact h hy hr hs

omit [DecidableEq K] [Poolable T] in
private theorem abandoned_sentOk (x : Waiter T K)
    (h : x.chan.receiver = true → x.chan.sender = .sent → x.chan.slot.isSome = true) :
    (Channels.abandoned x).chan.receiver = true → (Channels.abandoned x).chan.sender = .sent →
      (Channels.abandoned x).chan.slot.isSome = true := by
  rcases x with ⟨key,sender,receiver,slot⟩
  cases sender with
  | held => exact fun _ hs => nomatch hs
  | sent => exact h
  | dropped => exact fun _ hs => nomatch hs

omit [DecidableEq K] [Poolable T] in
theorem SentOk.dropSenders {chans : Channels T K} (h : SentOk chans) (ids : List ℕ) :
    SentOk (chans.dropSenders ids) := by
  induction ids generalizing chans with
  | nil => exact h
  | cons i rest ih => exact ih (h.modify i abandoned_sentOk)

omit [DecidableEq K] in
theorem HandOver.sentOk {vanish : ℕ → Bool} {v : T} {q rest : List ℕ} {chans chans' : Channels T K}
    {left : Option T} (hh : HandOver vanish v q chans left rest chans') (h : SentOk chans) :
    SentOk chans' := by
  have hdeliver : ∀ {chans : Channels T K} (i : ℕ), SentOk chans →
      SentOk (chans.modify i (Channels.delivered v)) := fun i h => h.modify i (fun _ _ _ _ => rfl)
  induction hh with
  | exhausted => exact h
  | unique => exact hdeliver _ h
  | canceled _ _ ih => exact ih (h.modify _ abandoned_sentOk)
  | vanished _ _ _ ih =>
    refine ih (h.modify _ ?_)
    intro x _ hr _
    simp [Channels.vanished] at hr
  | shared _ _ _ _ ih => exact ih (hdeliver _ h)

theorem Inner.PutOutcome.sentOk {vanish : ℕ → Bool} {now : ℕ} {inner inner' : Inner T K}
    {chans chans' : Channels T K} {key : K} {v : T} {kept : Bool}
    (ho : PutOutcome vanish now inner chans key v kept inner' chans') (h : SentOk chans) :
    SentOk chans' := by
  cases ho with
  | refused => exact h
  | handed hh => exact hh.sentOk h
  | full hh => exact hh.sentOk h
  | stored hh => exact hh.sentOk h

variable {w w' : World T K} {a : Action T K}

theorem Transition.sentOk (ht : Transition w a w') (h : SentOk w.chans) : SentOk w'.chans := by
  have hreceived : ∀ i, SentOk (w.chans.modify i Channels.received) :=
    fun i => h.modify i (fun _ _ hr _ => nomatch hr)
  cases ht with
  | pooledShared hg hp hs ho => exact (ho.sentOk h).dropSenders _
  | pollOpen | pollClosed | pollDropped | cancelCheckout => exact hreceived _
  | registered =>
    intro i x hx hr hs
    rcases Table.get_alloc_cases hx with ⟨_,rfl⟩ | hx
    · cases hs
    · exact h hx hr hs
  | droppedPut hi ho hp hout => exact hout.sentOk h
  | cleanCheckout =>
    dsimp only
    rw [Inner.cleanWaiters_chans]
    exact h.dropSenders _
  | dropConnecting =>
    dsimp only
    rw [Inner.connectingCancelled_chans]
    exact h.dropSenders _
  | _ => exact h

theorem Inner.PutOutcome.live {vanish : ℕ → Bool} {now : ℕ} {inner inner' : Inner T K}
    {chans chans' : Channels T K} {key : K} {v : T} {kept : Bool}
    (ho : PutOutcome vanish now inner chans key v kept inner' chans') {i : ℕ} {x : Waiter T K}
    (hx : chans.get i = some x) (hr : x.chan.receiver = true) (hv : vanish i = false) :
    ∃ x', chans'.get i = some x' ∧ x'.chan.receiver = true ∧
      (x.chan.sender ≠ .dropped → x'.chan.sender ≠ .dropped) := by
  cases ho with
  | refused => exact ⟨x,hx,hr,id⟩
  | handed hh => exact hh.live hx hr hv
  | full hh => exact hh.live hx hr hv
  | stored hh => exact hh.live hx hr hv

/-- After `put` of a shareable value no live receiver waits for the key: the
hand-over serves every one of them, and a refused value found none. -/
theorem Inner.PutOutcome.queue_shared {vanish : ℕ → Bool} {now : ℕ} {inner inner' : Inner T K}
    {chans chans' : Channels T K} {key : K} {v : T} {kept : Bool}
    (ho : PutOutcome vanish now inner chans key v kept inner' chans') (hs : canShare v = true)
    (hd : (inner.idle key).isSome = true → ∀ i ∈ inner.queue key, chans.isCanceled i = true) :
    ∀ i ∈ inner'.queue key, chans'.isCanceled i = true := by
  have hnone : ∀ {idle : K → Option (List (Idle T))} {ref : Bool}, ∀ i ∈ queue { inner with
      waiters := mapSet inner.waiters key none, idle := idle, idleIntervalRef := ref } key,
      chans'.isCanceled i = true := by
    intro idle ref i hi
    simp [queue] at hi
  cases ho with
  | refused _ hidle => exact hd hidle
  | handed hh =>
    have hu := hh.left_none
    rw [hs] at hu
    cases hu
  | full => exact hnone
  | stored => exact hnone

omit [Poolable T] [DecidableEq K] in
theorem get_dropSenders_live {chans : Channels T K} {ids : List ℕ}
    (hc : ∀ j ∈ ids, chans.isCanceled j = true) {i : ℕ} {x : Waiter T K} (hx : chans.get i = some x)
    (hr : x.chan.receiver = true) : (chans.dropSenders ids).get i = some x := by
  have hn : i ∉ ids := by
    intro hm
    have hcan := hc i hm
    rw [Channels.isCanceled_of_some hx,hr] at hcan
    cases hcan
  rw [Channels.get_dropSenders_of_some ids hx,if_neg hn]

/-- A channel loses its receiver only to the checkout the action is performed on,
and its sender only to a guard that is dropped. -/
theorem Transition.channel_frame (ht : Transition w a w') (hd : Drained w) {i : ℕ} {x : Waiter T K}
    (hx : w.chans.get i = some x) (hr : x.chan.receiver = true) (hv : a.vanishes i = false) :
    ∃ x', w'.chans.get i = some x' ∧
      ((∀ c checkout, a.checkout? = some c → w.checkouts.get c = some checkout →
        checkout.waiter ≠ some i) → x'.chan.receiver = true) ∧
      (x.chan.sender ≠ .dropped → x'.chan.sender = .dropped →
        ∃ g guard, a = .dropConnecting g ∧ w.guards.get g = some guard ∧
          i ∈ w.inner.queue guard.key) := by
  have hsame : ∀ {chans : Channels T K}, chans.get i = some x → ∃ x', chans.get i = some x' ∧
      ((∀ c checkout, a.checkout? = some c → w.checkouts.get c = some checkout →
        checkout.waiter ≠ some i) → x'.chan.receiver = true) ∧
      (x.chan.sender ≠ .dropped → x'.chan.sender = .dropped →
        ∃ g guard, a = .dropConnecting g ∧ w.guards.get g = some guard ∧
          i ∈ w.inner.queue guard.key) :=
    fun h => ⟨x,h,fun _ => hr,fun hn he => absurd he hn⟩
  have htaken : ∀ {c j : ℕ} {checkout : Checkout K}, a.checkout? = some c →
      w.checkouts.get c = some checkout → checkout.waiter = some j →
      ∃ x', (w.chans.modify j Channels.received).get i = some x' ∧
      ((∀ c checkout, a.checkout? = some c → w.checkouts.get c = some checkout →
        checkout.waiter ≠ some i) → x'.chan.receiver = true) ∧
      (x.chan.sender ≠ .dropped → x'.chan.sender = .dropped →
        ∃ g guard, a = .dropConnecting g ∧ w.guards.get g = some guard ∧
          i ∈ w.inner.queue guard.key) := by
    intro c j checkout ha hget hw
    by_cases he : i = j
    · subst he
      refine ⟨Channels.received x,by rw [Table.get_modify_self,hx]; rfl,?_,?_⟩
      · intro hc
        exact absurd hw (hc c checkout ha hget)
      · intro hn hdropped
        exact absurd hdropped hn
    · exact hsame ((Table.get_modify_ne _ _ he).trans hx)
  cases ht with
  | @pooledShared g guard value vanish kept inner chans hg hp hs ho =>
    obtain ⟨y,hy,hyr,hys⟩ := ho.live hx hr hv
    have hq := ho.queue_shared hs (hd guard.key)
    refine ⟨y,?_,fun _ => hyr,fun hn he => absurd he (hys hn)⟩
    exact get_dropSenders_live hq hy hyr
  | pollOpen hget hw | pollClosed hget hw | pollDropped hget hw | cancelCheckout hget hw =>
    exact htaken rfl hget hw
  | registered => exact hsame (Table.get_alloc_of_some _ hx)
  | droppedPut hi ho hp hout =>
    obtain ⟨y,hy,hyr,hys⟩ := hout.live hx hr hv
    exact ⟨y,hy,fun _ => hyr,fun hn he => absurd he (hys hn)⟩
  | cleanCheckout =>
    dsimp only
    rw [Inner.cleanWaiters_chans]
    exact hsame (get_dropSenders_live (fun j hj => (List.mem_filter.mp hj).2) hx hr)
  | @dropConnecting g guard hg hp =>
    dsimp only
    rw [Inner.connectingCancelled_chans]
    by_cases hm : i ∈ w.inner.queue guard.key
    · refine ⟨Channels.abandoned x,?_,?_,fun _ _ => ⟨g,guard,rfl,hg,hm⟩⟩
      · rw [Channels.get_dropSenders_of_some _ hx,if_pos hm]
      · intro _
        simpa [Channels.abandoned] using hr
    · refine hsame ?_
      rw [Channels.get_dropSenders_of_some _ hx,if_neg hm]
  | _ => exact hsame hx

theorem Transition.waiter_kept {c i : ℕ} (ht : Transition w (.checkout c) w') {checkout : Checkout K}
    (hc : w.checkouts.get c = some checkout) (hw : checkout.waiter = some i) :
    w'.checkouts.get c = some checkout := by
  cases ht with
  | popped => exact hc
  | missed => exact hc
  | registered hget hnone =>
    rw [hc] at hget
    cases hget
    rw [hw] at hnone
    cases hnone

end Channel
end H12Tiny.Pool
