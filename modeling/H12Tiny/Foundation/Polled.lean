import H12Tiny.Foundation.Oneshot
import Mathlib.Data.Nat.Basic
import Mathlib.Order.Monotone.Defs

/-! # Sources that are polled against a clock

A source has a state and answers every poll with a value or that it is pending; what it
answers may depend on the instant. The polls come at the instants of a schedule, which
never go back. A future is a source that is polled until its first value. Wrappers with a
timer compare the instant of a poll with the last one at which something happened, so that
instant is defined once, for any notion of something happening.
-/
namespace H12Tiny

def Poll.toList {α : Type*} : Poll α → List α
  | .ready a => [a]
  | .pending => []

def Poll.isReady {α : Type*} : Poll α → Bool
  | .ready _ => true
  | .pending => false

def Poll.map {α β : Type*} (f : α → β) : Poll α → Poll β
  | .ready a => .ready (f a)
  | .pending => .pending

abbrev Source (σ α : Type*) := ℕ → σ → Poll α × σ

/-- The instants at which a source is created and polled. -/
structure Schedule where
  start : ℕ
  instant : ℕ → ℕ
  start_le : start ≤ instant 0
  monotone : Monotone instant

namespace Schedule
variable (schedule : Schedule)

theorem start_le_instant (n : ℕ) : schedule.start ≤ schedule.instant n :=
  schedule.start_le.trans (schedule.monotone (Nat.zero_le n))

section LastBefore
variable (active : ℕ → Bool)

def lastBefore : ℕ → ℕ
  | 0 => schedule.start
  | n + 1 => if active n then schedule.instant n else lastBefore n

variable {schedule active}

theorem lastBefore_active {n : ℕ} (h : active n = true) :
    schedule.lastBefore active (n + 1) = schedule.instant n := if_pos h

theorem lastBefore_quiet {n : ℕ} (h : active n = false) :
    schedule.lastBefore active (n + 1) = schedule.lastBefore active n := by
  rw [lastBefore,h]
  rfl

variable (schedule active)

theorem start_le_lastBefore (n : ℕ) : schedule.start ≤ schedule.lastBefore active n := by
  induction n with
  | zero => exact Nat.le_refl _
  | succ n ih =>
    unfold lastBefore
    split
    · exact schedule.start_le_instant n
    · exact ih

variable {active}

theorem instant_le_lastBefore {m n : ℕ} (hm : active m = true) (h : m < n) :
    schedule.instant m ≤ schedule.lastBefore active n := by
  induction n with
  | zero => omega
  | succ n ih =>
    unfold lastBefore
    split
    · exact schedule.monotone (Nat.le_of_lt_succ h)
    next hn =>
      have hne : m ≠ n := fun e => hn (e ▸ hm)
      exact ih (by omega)

variable (active)

theorem lastBefore_cases (n : ℕ) : schedule.lastBefore active n = schedule.start ∨
    ∃ m < n, active m = true ∧ schedule.lastBefore active n = schedule.instant m := by
  induction n with
  | zero => exact .inl rfl
  | succ n ih =>
    unfold lastBefore
    split
    next hn => exact .inr ⟨n,Nat.lt_succ_self n,hn,rfl⟩
    · rcases ih with h | ⟨m,hm,ha,h⟩
      · exact .inl h
      · exact .inr ⟨m,Nat.lt_succ_of_lt hm,ha,h⟩

variable {schedule active}

theorem lastBefore_congr {active' : ℕ → Bool} {n : ℕ} (h : ∀ k < n, active k = active' k) :
    schedule.lastBefore active n = schedule.lastBefore active' n := by
  induction n with
  | zero => rfl
  | succ n ih =>
    have hlast := ih fun k hk => h k (Nat.lt_succ_of_lt hk)
    rw [lastBefore,lastBefore,h n (Nat.lt_succ_self n),hlast]

end LastBefore
end Schedule

namespace Source
variable {σ τ α β : Type*} (source : Source σ α) (schedule : Schedule) (s : σ)

def stateAt : ℕ → σ
  | 0 => s
  | n + 1 => (source (schedule.instant n) (stateAt n)).2

def answerAt (n : ℕ) : Poll α := (source (schedule.instant n) (source.stateAt schedule s n)).1

def yields : ℕ → List α
  | 0 => []
  | n + 1 => yields n ++ (source.answerAt schedule s n).toList

/-- What a future has come to after a number of polls. It is not polled again once it is
ready. -/
def resolve : ℕ → Poll α
  | 0 => .pending
  | n + 1 =>
    match resolve n with
    | .ready a => .ready a
    | .pending => source.answerAt schedule s n

/-- The source that gives these answers, one at a poll, and then the last one for ever. -/
def scripted (last : Poll α) : Source (List (Poll α)) α := fun _ script =>
  match script with
  | [] => (last,[])
  | answer :: script => (answer,script)

theorem stateAt_succ (n : ℕ) : source.stateAt schedule s (n + 1) =
    (source (schedule.instant n) (source.stateAt schedule s n)).2 := rfl

variable {source schedule s}

theorem resolve_of_ready {n : ℕ} {a : α} (h : source.resolve schedule s n = .ready a) :
    source.resolve schedule s (n + 1) = .ready a := by
  rw [resolve,h]

theorem resolve_of_pending {n : ℕ} (h : source.resolve schedule s n = .pending) :
    source.resolve schedule s (n + 1) = source.answerAt schedule s n := by
  rw [resolve,h]

theorem invariant {I : ℕ → σ → Prop} (hs : I 0 s)
    (hstep : ∀ n t, I n t → I (n + 1) (source (schedule.instant n) t).2) (n : ℕ) :
    I n (source.stateAt schedule s n) := by
  induction n with
  | zero => exact hs
  | succ n ih => exact hstep n _ ih

/-- A future that goes on under an invariant until it ends. -/
theorem resolve_induction {I : ℕ → σ → Prop} {Goes : ℕ → Prop} {Ends : ℕ → α → Prop} (hs : I 0 s)
    (hstep : ∀ n t, I n t → (∃ a, (source (schedule.instant n) t).1 = .ready a ∧ Ends n a) ∨
      (source (schedule.instant n) t).1 = .pending ∧ Goes n ∧ I (n + 1) (source (schedule.instant n) t).2)
    (n : ℕ) :
    (source.resolve schedule s n = .pending ∧ I n (source.stateAt schedule s n) ∧ ∀ k < n, Goes k) ∨
      ∃ m < n, ∃ a, source.resolve schedule s n = .ready a ∧ Ends m a ∧
        I m (source.stateAt schedule s m) ∧ ∀ k < m, Goes k := by
  induction n with
  | zero => exact .inl ⟨rfl,hs,fun k hk => absurd hk (Nat.not_lt_zero k)⟩
  | succ n ih =>
    rcases ih with ⟨hpending,hinv,hgoes⟩ | ⟨m,hm,a,hready,hends,hinv,hgoes⟩
    · have hnext := resolve_of_pending hpending
      rcases hstep n _ hinv with ⟨a,ha,hends⟩ | ⟨ha,hgoesn,hinv'⟩
      · exact .inr ⟨n,Nat.lt_succ_self n,a,hnext.trans ha,hends,hinv,hgoes⟩
      · refine .inl ⟨hnext.trans ha,hinv',fun k hk => ?_⟩
        rcases Nat.lt_succ_iff_lt_or_eq.mp hk with hk | rfl
        · exact hgoes k hk
        · exact hgoesn
    · exact .inr ⟨m,Nat.lt_succ_of_lt hm,a,resolve_of_ready hready,hends,hinv,hgoes⟩

section Map
variable (source : Source σ α) (schedule : Schedule) (s : σ) (f : α → β)

def map : Source σ β := fun now s => ((source now s).1.map f,(source now s).2)

theorem stateAt_map (n : ℕ) : (source.map f).stateAt schedule s n = source.stateAt schedule s n := by
  induction n with
  | zero => rfl
  | succ n ih =>
    rw [stateAt_succ,stateAt_succ,ih]
    rfl

theorem answerAt_map (n : ℕ) :
    (source.map f).answerAt schedule s n = (source.answerAt schedule s n).map f := by
  unfold answerAt
  rw [stateAt_map]
  rfl

theorem yields_map (n : ℕ) : (source.map f).yields schedule s n = (source.yields schedule s n).map f := by
  induction n with
  | zero => rfl
  | succ n ih =>
    have hanswer : ((source.answerAt schedule s n).map f).toList = (source.answerAt schedule s n).toList.map f := by
      cases source.answerAt schedule s n <;> rfl
    rw [yields,yields,ih,answerAt_map,hanswer,List.map_append]

end Map

section Resolve
variable {source : Source σ α} {schedule : Schedule} {s : σ}

theorem resolve_eq_pending_iff {n : ℕ} : source.resolve schedule s n = .pending ↔
    ∀ k < n, source.answerAt schedule s k = .pending := by
  induction n with
  | zero => exact ⟨fun _ k hk => absurd hk (Nat.not_lt_zero k),fun _ => rfl⟩
  | succ n ih =>
    constructor
    · intro h k hk
      cases hn : source.resolve schedule s n with
      | ready a => cases (resolve_of_ready hn).symm.trans h
      | pending =>
        rcases Nat.lt_succ_iff_lt_or_eq.mp hk with hk | rfl
        · exact ih.mp hn k hk
        · exact (resolve_of_pending hn).symm.trans h
    · intro h
      have hn := ih.mpr fun k hk => h k (Nat.lt_succ_of_lt hk)
      exact (resolve_of_pending hn).trans (h n (Nat.lt_succ_self n))

theorem resolve_eq_ready {m n : ℕ} {a : α} (hm : m < n) (hbefore : ∀ k < m, source.answerAt schedule s k = .pending)
    (ha : source.answerAt schedule s m = .ready a) : source.resolve schedule s n = .ready a := by
  induction n, hm using Nat.le_induction with
  | base => exact (resolve_of_pending (resolve_eq_pending_iff.mpr hbefore)).trans ha
  | succ n _ ih => exact resolve_of_ready ih

end Resolve

/-- A future and the timer that it is raced against. The timer is set by the first poll. -/
structure Timed (σ : Type*) where
  future : σ
  timer : Option ℕ

section Timeout
variable (future : Source σ α) (duration : ℕ) (late : α)

/-- The future is polled before the timer, and dropped when the timer fires. -/
def withTimeout : Source (Timed σ) α := fun now self =>
  let timer := self.timer.getD (now + duration)
  match future now self.future with
  | (.ready a,future) => (.ready a,⟨future,some timer⟩)
  | (.pending,future) => (if timer ≤ now then .ready late else .pending,⟨future,some timer⟩)

variable (schedule : Schedule) (s : σ)

/-- The timer is not due at the poll with this number. -/
def Within (n : ℕ) : Prop := schedule.instant n < schedule.instant 0 + duration

instance (n : ℕ) : Decidable (Within duration schedule n) := inferInstanceAs (Decidable (_ < _))

variable {future duration late schedule s}

theorem withTimeout_state (now : ℕ) (self : Timed σ) : (withTimeout future duration late now self).2 =
    ⟨(future now self.future).2,some (self.timer.getD (now + duration))⟩ := by
  unfold withTimeout
  rcases future now self.future with ⟨a | _,t⟩ <;> rfl

theorem withTimeout_ready {now : ℕ} {self : Timed σ} {a : α} (h : (future now self.future).1 = .ready a) :
    (withTimeout future duration late now self).1 = .ready a := by
  unfold withTimeout
  rcases hpoll : future now self.future with ⟨answer,t⟩
  rw [hpoll] at h
  cases h
  rfl

theorem withTimeout_pending {now : ℕ} {self : Timed σ} (h : (future now self.future).1 = .pending) :
    (withTimeout future duration late now self).1 =
      if self.timer.getD (now + duration) ≤ now then .ready late else .pending := by
  unfold withTimeout
  rcases hpoll : future now self.future with ⟨answer,t⟩
  rw [hpoll] at h
  cases h
  rfl

theorem stateAt_withTimeout (n : ℕ) :
    ((withTimeout future duration late).stateAt schedule ⟨s,none⟩ n).future = future.stateAt schedule s n ∧
      ((withTimeout future duration late).stateAt schedule ⟨s,none⟩ n).timer.getD (schedule.instant n + duration) =
        schedule.instant 0 + duration := by
  induction n with
  | zero => exact ⟨rfl,rfl⟩
  | succ n ih =>
    rw [stateAt_succ,withTimeout_state,stateAt_succ,ih.1,ih.2]
    exact ⟨rfl,rfl⟩

theorem answerAt_withTimeout_ready {n : ℕ} {a : α} (h : future.answerAt schedule s n = .ready a) :
    (withTimeout future duration late).answerAt schedule ⟨s,none⟩ n = .ready a := by
  apply withTimeout_ready
  rw [(stateAt_withTimeout n).1]
  exact h

theorem answerAt_withTimeout_pending {n : ℕ} (h : future.answerAt schedule s n = .pending) :
    (withTimeout future duration late).answerAt schedule ⟨s,none⟩ n =
      if Within duration schedule n then .pending else .ready late := by
  unfold answerAt
  rw [withTimeout_pending (by rw [(stateAt_withTimeout n).1]; exact h),(stateAt_withTimeout n).2]
  by_cases hw : Within duration schedule n
  · rw [if_pos hw,if_neg (Nat.not_le.mpr hw)]
  · rw [if_neg hw,if_pos (Nat.not_lt.mp hw)]

variable (future duration late schedule s)

/-- The future is waited for until its value or the first poll at which the timer is due. -/
theorem resolve_withTimeout (n : ℕ) :
    ((withTimeout future duration late).resolve schedule ⟨s,none⟩ n = .pending ∧
        ∀ k < n, future.answerAt schedule s k = .pending ∧ Within duration schedule k) ∨
      ∃ m < n, (∀ k < m, future.answerAt schedule s k = .pending ∧ Within duration schedule k) ∧
        ((∃ a, future.answerAt schedule s m = .ready a ∧
            (withTimeout future duration late).resolve schedule ⟨s,none⟩ n = .ready a) ∨
          (future.answerAt schedule s m = .pending ∧ ¬ Within duration schedule m ∧
            (withTimeout future duration late).resolve schedule ⟨s,none⟩ n = .ready late)) := by
  induction n with
  | zero => exact .inl ⟨rfl,fun k hk => absurd hk (Nat.not_lt_zero k)⟩
  | succ n ih =>
    rcases ih with ⟨hpending,hbefore⟩ | ⟨m,hm,hbefore,⟨a,ha,hready⟩ | ⟨ha,hlate,hready⟩⟩
    · have hnext := resolve_of_pending hpending
      cases ha : future.answerAt schedule s n with
      | ready a =>
        exact .inr ⟨n,Nat.lt_succ_self n,hbefore,.inl ⟨a,ha,hnext.trans (answerAt_withTimeout_ready ha)⟩⟩
      | pending =>
        rw [answerAt_withTimeout_pending ha] at hnext
        by_cases hw : Within duration schedule n
        · rw [if_pos hw] at hnext
          refine .inl ⟨hnext,fun k hk => ?_⟩
          rcases Nat.lt_succ_iff_lt_or_eq.mp hk with hk | rfl
          · exact hbefore k hk
          · exact ⟨ha,hw⟩
        · rw [if_neg hw] at hnext
          exact .inr ⟨n,Nat.lt_succ_self n,hbefore,.inr ⟨ha,hw,hnext⟩⟩
    · exact .inr ⟨m,Nat.lt_succ_of_lt hm,hbefore,.inl ⟨a,ha,resolve_of_ready hready⟩⟩
    · exact .inr ⟨m,Nat.lt_succ_of_lt hm,hbefore,.inr ⟨ha,hlate,resolve_of_ready hready⟩⟩

end Timeout

end Source

end H12Tiny
