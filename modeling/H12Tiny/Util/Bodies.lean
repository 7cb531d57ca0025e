import H12Tiny.Foundation.Polled
import H12Tiny.Util.Collect
import Mathlib.Data.List.ReduceOption

/-! # Polled bodies

The body adapters of the util crate: the body that is read from a reader, the idle timeout
and the bounded collection. A body is a source of frames, errors and an end; it may be
pending at any poll. The collection polls its body once in every step of the model: a poll
of the future that takes several frames is several steps at one instant. What is collected
under an idle timeout is decided by the first poll of the body that is not a frame within
the limit or a pause within the timeout, unless the buffer cannot be reserved.
-/
namespace H12Tiny.Util
open Sync (Bytes)

abbrev Body (σ E : Type) := Source σ (Option (Except E Frame))

inductive IdleTimeoutError (E : Type)
  | body (error : E)
  | timedOut (idle : ℕ)

structure IdleTimeoutBody (σ : Type) where
  inner : σ
  timer : ℕ
  idle : ℕ
  done : Bool

namespace IdleTimeoutBody
variable {σ E : Type}

def new (now : ℕ) (inner : σ) (idle : ℕ) : IdleTimeoutBody σ := ⟨inner,now + idle,idle,false⟩

def pollFrame (body : Body σ E) : Body (IdleTimeoutBody σ) (IdleTimeoutError E) := fun now self =>
  if self.done then (.ready none,self)
  else
    match body now self.inner with
    | (.ready (some (.ok frame)),inner) => (.ready (some (.ok frame)),{ self with inner, timer := now + self.idle })
    | (.ready (some (.error error)),inner) => (.ready (some (.error (.body error))),{ self with inner, done := true })
    | (.ready none,inner) => (.ready none,{ self with inner, done := true })
    | (.pending,inner) =>
      if self.timer ≤ now then (.ready (some (.error (.timedOut self.idle))),{ self with inner, done := true })
      else (.pending,{ self with inner })

def sizeHint (inner : σ → SizeHint) (self : IdleTimeoutBody σ) : SizeHint := inner self.inner

section Polling
variable {body : Body σ E} {now timer idle : ℕ} {s inner : σ}

theorem pollFrame_frame {frame : Frame} (h : body now s = (.ready (some (.ok frame)),inner)) :
    pollFrame body now ⟨s,timer,idle,false⟩ = (.ready (some (.ok frame)),⟨inner,now + idle,idle,false⟩) := by
  simp [pollFrame,h]

theorem pollFrame_error {error : E} (h : body now s = (.ready (some (.error error)),inner)) :
    pollFrame body now ⟨s,timer,idle,false⟩ =
      (.ready (some (.error (.body error))),⟨inner,timer,idle,true⟩) := by
  simp [pollFrame,h]

theorem pollFrame_end (h : body now s = (.ready none,inner)) :
    pollFrame body now ⟨s,timer,idle,false⟩ = (.ready none,⟨inner,timer,idle,true⟩) := by
  simp [pollFrame,h]

theorem pollFrame_fires (h : body now s = (.pending,inner)) (ht : timer ≤ now) :
    pollFrame body now ⟨s,timer,idle,false⟩ =
      (.ready (some (.error (.timedOut idle))),⟨inner,timer,idle,true⟩) := by
  simp [pollFrame,h,ht]

theorem pollFrame_waits (h : body now s = (.pending,inner)) (ht : now < timer) :
    pollFrame body now ⟨s,timer,idle,false⟩ = (.pending,⟨inner,timer,idle,false⟩) := by
  simp [pollFrame,h,ht]

end Polling
end IdleTimeoutBody

/-- The locals of `collect_bytes_limited`, and whether its first poll has reserved the buffer. -/
structure Collection (σ : Type) where
  body : σ
  reserved : Bool
  output : Bytes
  received : ℕ

section Collect
variable {σ E : Type}

def Collection.new (body : σ) : Collection σ := ⟨body,false,[],0⟩

/-- The loop, up to its next poll of the body. -/
def collectNext (body : Body σ E) (limit : ℕ) :
    Source (Collection σ) (Option (Except (BodyCollectionError E) Bytes)) := fun now self =>
  match body now self.body with
  | (.pending,body) => (.pending,⟨body,true,self.output,self.received⟩)
  | (.ready none,body) => (.ready (some (.ok self.output)),⟨body,true,self.output,self.received⟩)
  | (.ready (some frame),body) =>
    match collectFrame limit self.output self.received frame with
    | .inl result => (.ready result,⟨body,true,self.output,self.received⟩)
    | .inr (output,received) => (.pending,⟨body,true,output,received⟩)

/-- It has no result if it panics. -/
def collectBytesLimited (body : Body σ E) (sizeHint : σ → SizeHint) (limit : ℕ) :
    Source (Collection σ) (Option (Except (BodyCollectionError E) Bytes)) := fun now self =>
  if self.reserved = false ∧ isizeMax < initialCapacity (sizeHint self.body) limit then (.ready none,self)
  else collectNext body limit now self

section Polling
variable {body : Body σ E} {sizeHint : σ → SizeHint} {limit now received : ℕ} {s inner : σ} {reserved : Bool}
  {output : Bytes}

theorem collectBytesLimited_of_fits {self : Collection σ}
    (h : self.reserved = false → initialCapacity (sizeHint self.body) limit ≤ isizeMax) :
    collectBytesLimited body sizeHint limit now self = collectNext body limit now self :=
  if_neg fun hpanics => (h hpanics.1).not_gt hpanics.2

theorem collect_pending (h : body now s = (.pending,inner)) :
    collectNext body limit now ⟨s,reserved,output,received⟩ = (.pending,⟨inner,true,output,received⟩) := by
  simp [collectNext,h]

theorem collect_end (h : body now s = (.ready none,inner)) :
    collectNext body limit now ⟨s,reserved,output,received⟩ =
      (.ready (some (.ok output)),⟨inner,true,output,received⟩) := by
  simp [collectNext,h]

variable {frame : Except E Frame} (h : body now s = (.ready (some frame),inner))
include h

theorem collect_returns {result : Option (Except (BodyCollectionError E) Bytes)}
    (hframe : collectFrame limit output received frame = .inl result) :
    collectNext body limit now ⟨s,reserved,output,received⟩ = (.ready result,⟨inner,true,output,received⟩) := by
  simp [collectNext,h,hframe]

theorem collect_goes {output' : Bytes} {received' : ℕ}
    (hframe : collectFrame limit output received frame = .inr (output',received')) :
    collectNext body limit now ⟨s,reserved,output,received⟩ = (.pending,⟨inner,true,output',received'⟩) := by
  simp [collectNext,h,hframe]

end Polling
end Collect

section Delivered
variable {σ E : Type} (body : Body σ E) (schedule : Schedule) (s : σ)

/-- The data that the first polls of a body have brought. -/
def delivered (n : ℕ) : Bytes := (dataOf (body.yields schedule s n).reduceOption).flatten

def isFrame : Poll (Option (Except E Frame)) → Bool
  | .ready (some (.ok _)) => true
  | .ready (some (.error _)) => false
  | .ready none => false
  | .pending => false

/-- The last instant before a poll at which a frame came, or the start. -/
def lastFrame (n : ℕ) : ℕ := schedule.lastBefore (fun k => isFrame (body.answerAt schedule s k)) n

theorem dataOf_append (first second : List (Except E Frame)) :
    dataOf (first ++ second) = dataOf first ++ dataOf second := by
  induction first with
  | nil => rfl
  | cons frame first ih =>
    rcases frame with error | data | trailers
    · exact ih
    · exact congrArg (data :: ·) ih
    · exact ih

theorem delivered_succ (n : ℕ) : delivered body schedule s (n + 1) = delivered body schedule s n ++
    (dataOf (body.answerAt schedule s n).toList.reduceOption).flatten := by
  rw [delivered,Source.yields,List.reduceOption_append,dataOf_append,List.flatten_append]
  rfl

variable {body schedule s} {n : ℕ}

theorem delivered_data {data : Bytes} (h : body.answerAt schedule s n = .ready (some (.ok (.data data)))) :
    delivered body schedule s (n + 1) = delivered body schedule s n ++ data := by
  rw [delivered_succ,h]
  exact congrArg (delivered body schedule s n ++ ·) (List.append_nil data)

theorem delivered_quiet (h : dataOf (body.answerAt schedule s n).toList.reduceOption = []) :
    delivered body schedule s (n + 1) = delivered body schedule s n := by
  rw [delivered_succ,h]
  exact List.append_nil _

end Delivered

section Decision
variable {σ E : Type} (body : Body σ E) (schedule : Schedule) (s : σ) (idle limit : ℕ)

inductive Goes (n : ℕ) : Prop
  | waits (h : body.answerAt schedule s n = .pending)
      (hidle : schedule.instant n < lastFrame body schedule s n + idle)
  | trailers {trailers : HeaderMap String Bytes}
      (h : body.answerAt schedule s n = .ready (some (.ok (.trailers trailers))))
  | data {data : Bytes} (h : body.answerAt schedule s n = .ready (some (.ok (.data data))))
      (hlimit : (delivered body schedule s (n + 1)).length ≤ limit)
      (hfits : (delivered body schedule s (n + 1)).length ≤ isizeMax)

/-- The collection ends at this poll, and with what. Data that a buffer cannot hold and that
the limit lets through is a panic. -/
inductive Ends (n : ℕ) : Option (Except (BodyCollectionError (IdleTimeoutError E)) Bytes) → Prop
  | complete (h : body.answerAt schedule s n = .ready none) : Ends n (some (.ok (delivered body schedule s n)))
  | failed {error : E} (h : body.answerAt schedule s n = .ready (some (.error error))) :
      Ends n (some (.error (.body (.body error))))
  | stalled (h : body.answerAt schedule s n = .pending)
      (hidle : lastFrame body schedule s n + idle ≤ schedule.instant n) :
      Ends n (some (.error (.body (.timedOut idle))))
  | exceeded {data : Bytes} (h : body.answerAt schedule s n = .ready (some (.ok (.data data))))
      (hlimit : limit < min (delivered body schedule s (n + 1)).length usizeMax) :
      Ends n (some (.error (.limitExceeded ⟨limit,min (delivered body schedule s (n + 1)).length usizeMax⟩)))
  | outgrown {data : Bytes} (h : body.answerAt schedule s n = .ready (some (.ok (.data data))))
      (hlong : isizeMax < (delivered body schedule s (n + 1)).length)
      (hlimit : min (delivered body schedule s (n + 1)).length usizeMax ≤ limit) : Ends n none

section Polls
variable {body schedule s idle limit} {n : ℕ}

theorem Goes.idle_of_pending (h : Goes body schedule s idle limit n)
    (hpending : body.answerAt schedule s n = .pending) :
    schedule.instant n < lastFrame body schedule s n + idle := by
  cases h with
  | waits _ hidle => exact hidle
  | trailers h => cases hpending.symm.trans h
  | data h _ _ => cases hpending.symm.trans h

theorem not_goes_of_end (hend : body.answerAt schedule s n = .ready none) : ¬ Goes body schedule s idle limit n := by
  intro h
  cases h with
  | waits h _ => cases hend.symm.trans h
  | trailers h => cases hend.symm.trans h
  | data h _ _ => cases hend.symm.trans h

theorem Ends.of_end {result : Option (Except (BodyCollectionError (IdleTimeoutError E)) Bytes)}
    (h : Ends body schedule s idle limit n result) (hend : body.answerAt schedule s n = .ready none) :
    result = some (.ok (delivered body schedule s n)) := by
  cases h with
  | complete _ => rfl
  | failed h => cases hend.symm.trans h
  | stalled h _ => cases hend.symm.trans h
  | exceeded h _ => cases hend.symm.trans h
  | outgrown h _ _ => cases hend.symm.trans h

end Polls

/-- The collection before the poll with this number, if it has gone on so far. -/
def collecting (n : ℕ) : Collection (IdleTimeoutBody σ) where
  body := ⟨body.stateAt schedule s n,lastFrame body schedule s n + idle,idle,false⟩
  reserved := decide (0 < n)
  output := delivered body schedule s n
  received := (delivered body schedule s n).length

variable {body schedule s idle limit} {n : ℕ}

theorem lastFrame_quiet (h : isFrame (body.answerAt schedule s n) = false) :
    lastFrame body schedule s (n + 1) = lastFrame body schedule s n := Schedule.lastBefore_quiet h

theorem lastFrame_frame {frame : Frame} (h : body.answerAt schedule s n = .ready (some (.ok frame))) :
    lastFrame body schedule s (n + 1) = schedule.instant n :=
  Schedule.lastBefore_active (by simp [h,isFrame])

theorem collecting_frame {frame : Frame} (h : body.answerAt schedule s n = .ready (some (.ok frame))) :
    collecting body schedule s idle (n + 1) =
      ⟨⟨body.stateAt schedule s (n + 1),schedule.instant n + idle,idle,false⟩,true,delivered body schedule s (n + 1),
        (delivered body schedule s (n + 1)).length⟩ := by
  unfold collecting
  rw [lastFrame_frame h,decide_eq_true (Nat.succ_pos n)]

theorem collecting_pending (h : body.answerAt schedule s n = .pending) :
    collecting body schedule s idle (n + 1) =
      ⟨⟨body.stateAt schedule s (n + 1),lastFrame body schedule s n + idle,idle,false⟩,true,
        delivered body schedule s n,(delivered body schedule s n).length⟩ := by
  unfold collecting
  rw [lastFrame_quiet (by rw [h]; rfl),delivered_quiet (by rw [h]; rfl),decide_eq_true (Nat.succ_pos n)]

/-- What is held is within the limit and fits into a buffer. -/
def Held (limit : ℕ) (bytes : Bytes) : Prop := bytes.length ≤ limit ∧ bytes.length ≤ isizeMax

/-- One turn of the loop ends the collection or leaves it as the model of its locals says. -/
theorem collectNext_step (hheld : Held limit (delivered body schedule s n)) :
    let polled := collectNext (IdleTimeoutBody.pollFrame body) limit (schedule.instant n)
      (collecting body schedule s idle n)
    (∃ result, polled.1 = .ready result ∧ Ends body schedule s idle limit n result) ∨
      polled.1 = .pending ∧ Goes body schedule s idle limit n ∧
        polled.2 = collecting body schedule s idle (n + 1) ∧ Held limit (delivered body schedule s (n + 1)) := by
  intro polled
  have hstate := body.stateAt_succ schedule s n
  have hanswer : body.answerAt schedule s n = (body (schedule.instant n) (body.stateAt schedule s n)).1 := rfl
  rcases hpoll : body (schedule.instant n) (body.stateAt schedule s n) with ⟨answer,inner⟩
  rw [hpoll] at hstate hanswer
  rcases answer with (_ | error | data | trailers) | _
  · have hend : polled = _ := collect_end (IdleTimeoutBody.pollFrame_end hpoll)
    exact .inl ⟨_,congrArg Prod.fst hend,.complete hanswer⟩
  · have herror : polled = _ := collect_returns (IdleTimeoutBody.pollFrame_error hpoll) rfl
    exact .inl ⟨_,congrArg Prod.fst herror,.failed hanswer⟩
  · have hnext := delivered_data hanswer
    have hlength : (delivered body schedule s (n + 1)).length = (delivered body schedule s n).length + data.length := by
      rw [hnext,List.length_append]
    have hcount : saturatingAdd (delivered body schedule s n).length data.length =
        min (delivered body schedule s (n + 1)).length usizeMax := congrArg (min · usizeMax) hlength.symm
    have hframe : IdleTimeoutBody.pollFrame body _ ⟨_,lastFrame body schedule s n + idle,idle,false⟩ = _ :=
      IdleTimeoutBody.pollFrame_frame hpoll
    rcases Nat.lt_or_ge limit (saturatingAdd (delivered body schedule s n).length data.length) with hl | hl
    · have hexceeds : polled = _ := collect_returns hframe (collectFrame_exceeds hl)
      rw [hcount] at hexceeds hl
      exact .inl ⟨_,congrArg Prod.fst hexceeds,.exceeded hanswer hl⟩
    rcases Nat.lt_or_ge isizeMax ((delivered body schedule s n).length + data.length) with hgrows | hfits
    · have hpanics : polled = _ := collect_returns hframe (collectFrame_grows hl hgrows)
      rw [hcount] at hl
      exact .inl ⟨_,congrArg Prod.fst hpanics,.outgrown hanswer (hlength ▸ hgrows) hl⟩
    · have hdata : polled = _ := collect_goes hframe (collectFrame_within hl hfits)
      have hmax := isizeMax_lt_usizeMax
      rw [hcount,Nat.min_eq_left (by omega)] at hdata hl
      rw [← hlength] at hfits
      refine .inr ⟨congrArg Prod.fst hdata,.data hanswer hl hfits,?_,hl,hfits⟩
      rw [hdata,collecting_frame hanswer,hstate,← hnext]
  · have htrailers : polled = _ := collect_goes (IdleTimeoutBody.pollFrame_frame hpoll) rfl
    have hnext : delivered body schedule s (n + 1) = delivered body schedule s n :=
      delivered_quiet (by rw [hanswer]; rfl)
    refine .inr ⟨congrArg Prod.fst htrailers,.trailers hanswer,?_,hnext ▸ hheld⟩
    rw [htrailers,collecting_frame hanswer,hstate,hnext]
  · rcases Nat.lt_or_ge (schedule.instant n) (lastFrame body schedule s n + idle) with ht | ht
    · have hwaits : polled = _ := collect_pending (IdleTimeoutBody.pollFrame_waits hpoll ht)
      have hnext : delivered body schedule s (n + 1) = delivered body schedule s n :=
        delivered_quiet (by rw [hanswer]; rfl)
      refine .inr ⟨congrArg Prod.fst hwaits,.waits hanswer ht,?_,hnext ▸ hheld⟩
      rw [hwaits,collecting_pending hanswer,hstate]
    · have hfires : polled = _ := collect_returns (IdleTimeoutBody.pollFrame_fires hpoll ht) rfl
      exact .inl ⟨_,congrArg Prod.fst hfires,.stalled hanswer ht⟩

variable (body schedule s idle) (sizeHint : σ → SizeHint)

theorem collect_run (hcapacity : initialCapacity (sizeHint s) limit ≤ isizeMax) (n : ℕ) :
    let future := collectBytesLimited (IdleTimeoutBody.pollFrame body) (IdleTimeoutBody.sizeHint sizeHint) limit
    let start := Collection.new (IdleTimeoutBody.new schedule.start s idle)
    (future.resolve schedule start n = .pending ∧
        (future.stateAt schedule start n = collecting body schedule s idle n ∧
          Held limit (delivered body schedule s n)) ∧ ∀ k < n, Goes body schedule s idle limit k) ∨
      ∃ m < n, ∃ result, future.resolve schedule start n = .ready result ∧
        Ends body schedule s idle limit m result ∧
        (future.stateAt schedule start m = collecting body schedule s idle m ∧
          Held limit (delivered body schedule s m)) ∧ ∀ k < m, Goes body schedule s idle limit k := by
  refine Source.resolve_induction
    (I := fun n t => t = collecting body schedule s idle n ∧ Held limit (delivered body schedule s n))
    ⟨rfl,Nat.zero_le limit,Nat.zero_le isizeMax⟩ ?_ n
  rintro n _ ⟨rfl,hheld⟩
  rw [collectBytesLimited_of_fits]
  · exact collectNext_step hheld
  · intro hreserved
    have hn : n = 0 := Nat.eq_zero_of_not_pos (of_decide_eq_false hreserved)
    subst hn
    exact hcapacity

end Decision

section Yielded
variable {σ E : Type} {body : Body σ E} {schedule : Schedule} {s : σ} {sizeHint : σ → SizeHint} {limit n : ℕ}

theorem collect_reserves (hcapacity : isizeMax < initialCapacity (sizeHint s) limit) (hn : 0 < n) :
    (collectBytesLimited body sizeHint limit).resolve schedule (.new s) n = .ready none := by
  refine Source.resolve_eq_ready hn (fun k hk => absurd hk (Nat.not_lt_zero k)) ?_
  have hfirst : collectBytesLimited body sizeHint limit (schedule.instant 0) (.new s) = (.ready none,.new s) :=
    if_pos ⟨rfl,hcapacity⟩
  exact congrArg Prod.fst hfirst

theorem next_of_fits (hcapacity : initialCapacity (sizeHint s) limit ≤ isizeMax) {output : Bytes} {received : ℕ}
    (h : (collectBytesLimited body sizeHint limit).stateAt schedule (.new s) n =
      ⟨body.stateAt schedule s n,decide (0 < n),output,received⟩) :
    collectBytesLimited body sizeHint limit (schedule.instant n)
        ((collectBytesLimited body sizeHint limit).stateAt schedule (.new s) n) =
      collectNext body limit (schedule.instant n) ⟨body.stateAt schedule s n,decide (0 < n),output,received⟩ := by
  rw [h]
  apply collectBytesLimited_of_fits
  intro hreserved
  have hn : n = 0 := Nat.eq_zero_of_not_pos (of_decide_eq_false hreserved)
  subst hn
  exact hcapacity

/-- The polled collection is as far as the loop over what the body has yielded. -/
theorem collect_yields (hcapacity : initialCapacity (sizeHint s) limit ≤ isizeMax)
    {frames : List (Except E Frame)} (h : body.yields schedule s n = frames.map some) :
    let future := collectBytesLimited body sizeHint limit
    (future.resolve schedule (.new s) n = .pending ∧ ∃ output received,
        future.stateAt schedule (.new s) n = ⟨body.stateAt schedule s n,decide (0 < n),output,received⟩ ∧
        ∀ rest, collectLoop limit [] 0 (frames ++ rest) = collectLoop limit output received rest) ∨
      ∃ result, future.resolve schedule (.new s) n = .ready result ∧
        ∀ rest, collectLoop limit [] 0 (frames ++ rest) = result := by
  intro future
  induction n generalizing frames with
  | zero =>
    have hnil : frames = [] := List.map_eq_nil_iff.mp h.symm
    subst hnil
    exact .inl ⟨rfl,[],0,rfl,fun _ => rfl⟩
  | succ n ih =>
    have hstate := body.stateAt_succ schedule s n
    have hanswer : body.answerAt schedule s n = (body (schedule.instant n) (body.stateAt schedule s n)).1 := rfl
    rw [Source.yields] at h
    rw [decide_eq_true (Nat.succ_pos n)]
    rcases hpoll : body (schedule.instant n) (body.stateAt schedule s n) with ⟨answer,inner⟩
    rw [hpoll] at hstate hanswer
    rw [hanswer] at h
    rcases answer with yielded | _
    · -- the last frame is the one that this poll has brought
      obtain ⟨init,last,rfl,hinit,hlast⟩ := List.map_eq_append_iff.mp h.symm
      obtain ⟨frame,rfl,rfl⟩ := List.map_eq_singleton_iff.mp hlast
      rcases ih hinit.symm with ⟨hpending,output,received,hlocals,hloop⟩ | ⟨result,hready,hloop⟩
      · have hnext := next_of_fits hcapacity hlocals
        have hframe : ∀ rest, collectLoop limit [] 0 (init ++ [frame] ++ rest) =
            collectLoop limit output received (frame :: rest) := by
          intro rest
          rw [List.append_assoc,hloop,List.singleton_append]
        rcases hcollect : collectFrame limit output received frame with result | ⟨output',received'⟩
        · rw [collect_returns hpoll hcollect] at hnext
          refine .inr ⟨result,(Source.resolve_of_pending hpending).trans (congrArg Prod.fst hnext),fun rest => ?_⟩
          rw [hframe,collectLoop,hcollect]
        · rw [collect_goes hpoll hcollect] at hnext
          refine .inl ⟨(Source.resolve_of_pending hpending).trans (congrArg Prod.fst hnext),output',received',?_,?_⟩
          · rw [hstate]
            exact congrArg Prod.snd hnext
          · intro rest
            rw [hframe,collectLoop,hcollect]
      · refine .inr ⟨result,Source.resolve_of_ready hready,fun rest => ?_⟩
        rw [List.append_assoc,hloop]
    · rw [Poll.toList,List.append_nil] at h
      rcases ih h with ⟨hpending,output,received,hlocals,hloop⟩ | ⟨result,hready,hloop⟩
      · have hnext := next_of_fits hcapacity hlocals
        rw [collect_pending hpoll] at hnext
        refine .inl ⟨(Source.resolve_of_pending hpending).trans (congrArg Prod.fst hnext),output,received,?_,hloop⟩
        rw [hstate]
        exact congrArg Prod.snd hnext
      · exact .inr ⟨result,Source.resolve_of_ready hready,hloop⟩

/-- Pauses apart, the polled collection is `collectYielded` of what the body yields. -/
theorem resolve_collectBytesLimited {frames : List (Except E Frame)}
    (h : body.yields schedule s n = frames.map some ++ [none]) :
    (collectBytesLimited body sizeHint limit).resolve schedule (.new s) n =
      .ready (collectYielded frames (sizeHint s) limit) := by
  unfold collectYielded
  induction n with
  | zero => exact absurd h.symm (List.append_ne_nil_of_right_ne_nil _ (List.cons_ne_nil _ _))
  | succ n ih =>
    split
    next hcapacity => exact collect_reserves hcapacity (Nat.succ_pos n)
    next hcapacity =>
      rw [if_neg hcapacity] at ih
      rw [Source.yields] at h
      rcases hanswer : body.answerAt schedule s n with yielded | _
      · rw [hanswer] at h
        obtain ⟨hframes,hend⟩ := List.append_inj' h rfl
        obtain rfl : yielded = none := List.singleton_inj.mp hend
        rcases collect_yields (Nat.not_lt.mp hcapacity) hframes with
          ⟨hpending,output,received,hlocals,hloop⟩ | ⟨result,hready,hloop⟩
        · have hnext := next_of_fits (Nat.not_lt.mp hcapacity) hlocals
          rcases hpoll : body (schedule.instant n) (body.stateAt schedule s n) with ⟨answer,inner⟩
          have hnone : answer = .ready none := (congrArg Prod.fst hpoll).symm.trans hanswer
          subst hnone
          rw [collect_end hpoll] at hnext
          refine (Source.resolve_of_pending hpending).trans ((congrArg Prod.fst hnext).trans ?_)
          rw [← List.append_nil frames,hloop]
          rfl
        · rw [Source.resolve_of_ready hready,← List.append_nil frames,hloop]
      · rw [hanswer,Poll.toList,List.append_nil] at h
        exact Source.resolve_of_ready (ih h)

end Yielded

/-- What becomes of a body that is collected with a limit and an idle timeout, after any
number of polls. If the buffer cannot be reserved the first poll panics. Otherwise, as long
as every poll brought a frame within the limit or a pause within the timeout, all data so
far is held, and nothing else. The first other poll decides: the end gives exactly the data
of the body, its error is passed on, a pause that has reached the timeout is reported as
such, the frame that crosses the limit as the length so far, and one that the limit lets
through and a buffer cannot hold is a panic. -/
theorem collection_decided {σ E : Type} (body : Body σ E) (sizeHint : σ → SizeHint) (schedule : Schedule) (s : σ)
    (idle limit n : ℕ) :
    let future := collectBytesLimited (IdleTimeoutBody.pollFrame body) (IdleTimeoutBody.sizeHint sizeHint) limit
    let start := Collection.new (IdleTimeoutBody.new schedule.start s idle)
    (isizeMax < initialCapacity (sizeHint s) limit → 0 < n → future.resolve schedule start n = .ready none) ∧
    (initialCapacity (sizeHint s) limit ≤ isizeMax →
      (future.resolve schedule start n = .pending ∧
          (future.stateAt schedule start n).output = delivered body schedule s n ∧
          Held limit (delivered body schedule s n) ∧ ∀ k < n, Goes body schedule s idle limit k) ∨
        ∃ m < n, ∃ result, future.resolve schedule start n = .ready result ∧
          Ends body schedule s idle limit m result ∧ ∀ k < m, Goes body schedule s idle limit k) := by
  intro future start
  refine ⟨fun hcapacity hn => collect_reserves hcapacity hn,fun hcapacity => ?_⟩
  rcases collect_run body schedule s idle sizeHint hcapacity n with
    ⟨hpending,⟨hstate,hheld⟩,hgoes⟩ | ⟨m,hm,result,hready,hends,-,hgoes⟩
  · exact .inl ⟨hpending,congrArg Collection.output hstate,hheld,hgoes⟩
  · exact .inr ⟨m,hm,result,hready,hends,hgoes⟩

def instantly : Schedule := ⟨0,fun _ => 0,Nat.le_refl 0,fun _ _ _ => Nat.le_refl 0⟩

def scriptedBody : Body (List (Poll (Option (Except String Frame)))) String := Source.scripted (.ready none)

def pausingScript : List (Poll (Option (Except String Frame))) :=
  [.ready (some (.ok (.data [1,2]))),.pending,.ready (some (.ok (.data []))),.pending,
    .ready (some (.ok (.data [3]))),.ready (some (.ok (.trailers [])))]

/-- Three bytes with pauses between them are collected at the end of the body. With an
announced length of 2^63 and a limit as large the first poll panics. -/
theorem collection_decided_pausing :
    (∃ m < 7, ∃ result, (collectBytesLimited (IdleTimeoutBody.pollFrame scriptedBody)
          (IdleTimeoutBody.sizeHint fun _ => .default) 5).resolve instantly
          (.new (.new instantly.start pausingScript 1)) 7 = .ready result ∧
        Ends scriptedBody instantly pausingScript 1 5 m result ∧ result = some (.ok [1,2,3])) ∧
    (collectBytesLimited (IdleTimeoutBody.pollFrame scriptedBody)
      (IdleTimeoutBody.sizeHint fun _ => .withExact 9223372036854775808) 9223372036854775808).resolve instantly
      (.new (.new instantly.start pausingScript 1)) 1 = .ready none := by
  constructor
  · rcases (collection_decided scriptedBody (fun _ => .default) instantly pausingScript 1 5 7).2 (Nat.zero_le _) with
      ⟨hpending,-⟩ | ⟨m,hm,result,hready,hends,-⟩
    · cases hpending
    · refine ⟨m,hm,result,hready,hends,?_⟩
      cases hready
      rfl
  · exact (collection_decided scriptedBody (fun _ => .withExact 9223372036854775808) instantly pausingScript 1
      9223372036854775808 1).1 (by decide) Nat.one_pos

end H12Tiny.Util
