import H12Tiny.Foundation.Simulation
import H12Tiny.Sync.Body

/-! # What a body is still to read

All that a reader can learn from a connection is the bytes up to the first failure,
that failure, the bytes behind it, and so on: a wire. The buffered bytes come first
on it, and how the bytes are cut into segments is not part of it. Each reader is
compared with a reader of wires. Only the limit on a line depends on how the bytes
arrive: the wire's reader knows no limit, and then the code may stop with the limit's
error, or it is cautious and stops at every line that might reach the limit, and then
the code agrees wherever it does not.
-/
namespace H12Tiny.Sync

structure Wire where
  ready : Bytes
  later : List (IoError × Bytes)
  deriving DecidableEq, Repr

namespace Wire

def prepend (bytes : Bytes) (wire : Wire) : Wire := ⟨bytes ++ wire.ready,wire.later⟩

/-- A failed read lets the bytes behind the failure come up. -/
def fail (error : IoError) (wire : Wire) : Wire := ⟨[],(error,wire.ready) :: wire.later⟩

theorem prepend_nil (wire : Wire) : prepend [] wire = wire := rfl

theorem prepend_prepend (a b : Bytes) (wire : Wire) :
    prepend a (prepend b wire) = prepend (a ++ b) wire := by
  simp [prepend]

def exact (length : ℕ) : EStateM IoError Wire Bytes := fun wire =>
  if length ≤ wire.ready.length then
    .ok (wire.ready.take length) ⟨wire.ready.drop length,wire.later⟩
  else
    match wire.later with
    | [] => .error framingClosed ⟨[],[]⟩
    | (error,more) :: later => .error error ⟨more,later⟩

/-- The limit is none, or one at which the reader stops as soon as it might apply. -/
def takeUntil {ε : Type} (bound : Option ℕ) (needle : Bytes) (limit closed : ε) (io : IoError → ε) :
    EStateM ε Wire Bytes := fun wire =>
  match findSub needle wire.ready with
  | some stop =>
    if bound.any (· < stop + needle.length) then .error limit wire
    else .ok (wire.ready.take stop) ⟨wire.ready.drop (stop + needle.length),wire.later⟩
  | none =>
    if bound.any (· ≤ wire.ready.length) then .error limit wire
    else
      match wire.later with
      | [] => .error closed wire
      | (error,more) :: later => .error (io error) ⟨wire.ready ++ more,later⟩

theorem takeUntil_ok {ε : Type} {bound : Option ℕ} {needle : Bytes} {limit closed : ε} {io : IoError → ε}
    {text : Bytes} {wire wire' : Wire} (h : takeUntil bound needle limit closed io wire = .ok text wire') :
    findSub needle wire.ready = some text.length ∧ wire = wire'.prepend (text ++ needle) := by
  unfold takeUntil at h
  split at h
  next stop hfind =>
    split at h
    · cases h
    · cases h
      have hsplit := findSub_split hfind
      have hbound := findSub_bound hfind
      refine ⟨?_,?_⟩
      · rw [List.length_take,Nat.min_eq_left (by omega)]
        exact hfind
      · simp only [prepend]
        rw [← hsplit]
  next =>
    split at h
    · cases h
    · split at h
      · cases h
      · cases h

end Wire

def Connection.wire : List Event → Wire
  | [] => ⟨[],[]⟩
  | .data byte rest :: script => (Connection.wire script).prepend (byte :: rest)
  | .fail error :: script => (Connection.wire script).fail error

def Inbound.wire (inbound : Inbound) : Wire :=
  (Connection.wire inbound.connection.script).prepend inbound.buffered

theorem segment_wire (bytes : Bytes) (script : List Event) :
    Connection.wire (Event.segment bytes ++ script) = (Connection.wire script).prepend bytes := by
  cases bytes with
  | nil => rfl
  | cons byte rest => rfl

/-- What a read of the connection can find. The buffered bytes stay as they are. -/
inductive Receives (capacity : ℕ) (inbound : Inbound) : EStateM.Result IoError Inbound Bytes → Prop
  | closed (h : Connection.wire inbound.connection.script = ⟨[],[]⟩) :
      Receives capacity inbound (.ok [] inbound)
  | failed {error : IoError} {connection : Connection}
      (h : Connection.wire inbound.connection.script = (Connection.wire connection.script).fail error) :
      Receives capacity inbound (.error error ⟨connection,inbound.buffered⟩)
  | some {read : Bytes} {connection : Connection}
      (h : Connection.wire inbound.connection.script = (Connection.wire connection.script).prepend read)
      (hne : read ≠ []) (hlen : read.length ≤ capacity) :
      Receives capacity inbound (.ok read ⟨connection,inbound.buffered⟩)

theorem receive_receives {capacity : ℕ} (hcap : 0 < capacity) (inbound : Inbound) :
    Receives capacity inbound (receive capacity inbound) := by
  obtain ⟨⟨script,timeout⟩,buffered⟩ := inbound
  cases script with
  | nil => exact .closed rfl
  | cons event script =>
    cases event with
    | fail error => exact .failed rfl
    | data byte rest =>
      refine .some ?_ ?_ ?_
      · simp only [segment_wire,Connection.wire,Wire.prepend_prepend]
        rw [List.take_append_drop]
      · obtain ⟨n,rfl⟩ : ∃ n, capacity = n + 1 := ⟨capacity - 1,by omega⟩
        exact List.cons_ne_nil _ _
      · exact List.length_take_le _ _

/-- What `read_buffered` can find on the wire. -/
inductive Received (capacity : ℕ) (wire : Wire) : EStateM.Result IoError Inbound Bytes → Prop
  | closed {inbound : Inbound} (h : wire = ⟨[],[]⟩) (hwire : inbound.wire = wire) :
      Received capacity wire (.ok [] inbound)
  | failed {error : IoError} {inbound : Inbound} (h : wire = inbound.wire.fail error) :
      Received capacity wire (.error error inbound)
  | some {read : Bytes} {inbound : Inbound} (h : wire = inbound.wire.prepend read) (hne : read ≠ [])
      (hlen : read.length ≤ capacity) : Received capacity wire (.ok read inbound)

theorem readBuffered_received {capacity : ℕ} (hcap : 0 < capacity) (inbound : Inbound) :
    Received capacity inbound.wire (readBuffered capacity inbound) := by
  obtain ⟨connection,buffered⟩ := inbound
  unfold readBuffered
  split
  next he =>
    cases he
    have hreceives := receive_receives hcap ⟨connection,[]⟩
    generalize receive capacity ⟨connection,[]⟩ = r at hreceives
    cases hreceives with
    | closed h => exact .closed h rfl
    | failed h => exact .failed h
    | some h hne hlen => exact .some h hne hlen
  next hne =>
    refine .some ?_ ?_ ?_
    · simp only [Inbound.wire,Wire.prepend_prepend,List.take_append_drop]
    · obtain ⟨n,rfl⟩ : ∃ n, capacity = n + 1 := ⟨capacity - 1,by omega⟩
      obtain ⟨byte,rest,rfl⟩ := List.exists_cons_of_ne_nil hne
      exact List.cons_ne_nil _ _
    · exact List.length_take_le _ _

section Until
variable {ε : Type} (needle : Bytes) (maxLen : ℕ) (limit closed : ε) (io : IoError → ε)

/-- What `readUntil` can do to a wire. The bytes it reads are buffered. -/
inductive UntilResult (wire : Wire) : EStateM.Result ε Inbound ℕ → Prop
  | found {stop : ℕ} {inbound : Inbound} (hfind : findSub needle wire.ready = some stop)
      (hwire : inbound.wire = wire) (hlen : stop + needle.length ≤ inbound.buffered.length) :
      UntilResult wire (.ok stop inbound)
  | limit {inbound : Inbound} (hwire : inbound.wire = wire)
      (hlen : ∀ stop, findSub needle wire.ready = some stop → maxLen < stop + needle.length)
      (hnone : maxLen ≤ wire.ready.length) : UntilResult wire (.error limit inbound)
  | closed {inbound : Inbound} (hfind : findSub needle wire.ready = none) (hlater : wire.later = [])
      (hlen : wire.ready.length < maxLen) (hwire : inbound.wire = wire) :
      UntilResult wire (.error closed inbound)
  | failed {error : IoError} {more : Bytes} {later : List (IoError × Bytes)} {inbound : Inbound}
      (hfind : findSub needle wire.ready = none) (hlater : wire.later = (error,more) :: later)
      (hlen : wire.ready.length < maxLen) (hwire : inbound.wire = ⟨wire.ready ++ more,later⟩) :
      UntilResult wire (.error (io error) inbound)

theorem readUntil_result (inbound : Inbound) :
    UntilResult needle maxLen limit closed io inbound.wire
      (readUntil needle maxLen limit closed io inbound) := by
  refine loopM_induction (readUntil_lowers needle maxLen limit closed io)
    (P := fun _ inbound r => UntilResult needle maxLen limit closed io inbound.wire r) ?_ ?_ ?_ () inbound
  · intro _ inbound _ _ hb
    have hstep := readUntilBody_step needle maxLen limit closed io inbound
    rw [hb] at hstep
    cases hstep with
    | found hfind => exact .found (findSub_append hfind) rfl (findSub_bound hfind)
  · intro _ inbound _ _ hb
    have hstep := readUntilBody_step needle maxLen limit closed io inbound
    rw [hb] at hstep
    cases hstep with
    | limit hfind hlen =>
      refine .limit rfl ?_ ?_
      · intro stop hstop
        by_contra hle
        have hfound := findSub_of_append hstop (by omega)
        rw [hfind] at hfound
        cases hfound
      · simp only [Inbound.wire,Wire.prepend,List.length_append]
        omega
    | @failed error _ hfind hlen hread =>
      have hreceives := receive_receives (show 0 < 4096 by decide) inbound
      rw [hread] at hreceives
      cases hreceives with
      | @failed _ connection h =>
        have hwire : inbound.wire = ⟨inbound.buffered,(error,(Connection.wire connection.script).ready) ::
            (Connection.wire connection.script).later⟩ := by
          simp only [Inbound.wire,Wire.prepend,h,Wire.fail,List.append_nil]
        rw [hwire]
        exact .failed hfind rfl hlen rfl
    | closed hfind hlen hread =>
      have hreceives := receive_receives (show 0 < 4096 by decide) inbound
      rw [hread] at hreceives
      cases hreceives with
      | closed h =>
        have hwire : inbound.wire = ⟨inbound.buffered,[]⟩ := by
          simp only [Inbound.wire,Wire.prepend,h,List.append_nil]
        rw [hwire]
        exact .closed hfind rfl hlen hwire
      | some _ hne _ => exact absurd rfl hne
  · intro _ inbound _ _ r hb ih
    have hstep := readUntilBody_step needle maxLen limit closed io inbound
    rw [hb] at hstep
    cases hstep with
    | @more read _ hfind hlen hread hne =>
      have hreceives := receive_receives (show 0 < 4096 by decide) inbound
      rw [hread] at hreceives
      cases hreceives with
      | closed => exact absurd rfl hne
      | @some _ connection h _ _ =>
        have hwire : inbound.wire = Inbound.wire ⟨connection,inbound.buffered ++ read⟩ := by
          simp only [Inbound.wire]
          rw [h,Wire.prepend_prepend]
        rw [hwire]
        exact ih

theorem drain_wire {inbound : Inbound} {count : ℕ} (h : count ≤ inbound.buffered.length) :
    inbound.buffered.take count = inbound.wire.ready.take count ∧
      Inbound.wire { inbound with buffered := inbound.buffered.drop count } =
        ⟨inbound.wire.ready.drop count,inbound.wire.later⟩ := by
  simp only [Inbound.wire,Wire.prepend,List.take_append_of_le_length h,List.drop_append_of_le_length h,
    and_self]

/-- A bound of the wire's reader: none, or the limit of the code. -/
def Bounds (maxLen : ℕ) (bound : Option ℕ) : Prop := bound = none ∨ bound = some maxLen

/-- Against a reader without limit the code may give up, a cautious reader may itself. -/
def GivesUp (limit : ε) (bound : Option ℕ) (error : ε) : Prop := bound = none ∧ error = limit
def Cautious (limit : ε) (bound : Option ℕ) (error : ε) : Prop := bound ≠ none ∧ error = limit

/-- The relation between the state of a reader and the wire. -/
def Views (inbound : Inbound) (wire : Wire) : Prop := inbound.wire = wire

theorem Bounds.any_le {maxLen : ℕ} {bound : Option ℕ} (h : Bounds maxLen bound) {n : ℕ} (hn : n < maxLen) :
    bound.any (· ≤ n) = false := by
  rcases h with rfl | rfl
  · rfl
  · simp [hn]

theorem takeUntil_simulates {bound : Option ℕ} (hbound : Bounds maxLen bound) :
    Simulates Views (GivesUp limit bound) (Cautious limit bound)
      (takeUntil needle maxLen limit closed io) (Wire.takeUntil bound needle limit closed io) := by
  rintro inbound _ rfl
  have hresult := readUntil_result needle maxLen limit closed io inbound
  simp only [takeUntil,bind,EStateM.bind,Wire.takeUntil]
  generalize readUntil needle maxLen limit closed io inbound = r at hresult
  cases hresult with
  | @found stop inbound' hfind hwire hlen =>
    rw [hfind]
    by_cases hany : bound.any (· < stop + needle.length) = true
    · dsimp only
      rw [if_pos hany]
      refine .right ⟨?_,rfl⟩
      rintro rfl
      cases hany
    · obtain ⟨htake,_⟩ := drain_wire (show stop ≤ inbound'.buffered.length by omega)
      obtain ⟨_,hrest⟩ := drain_wire hlen
      dsimp only
      rw [if_neg hany,← hwire,← htake,← hrest]
      refine .ok ?_
      simp only [Views,List.drop_drop]
  | limit hwire hlen hnone =>
    rcases hbound with rfl | rfl
    · exact .left ⟨rfl,rfl⟩
    · cases hfind : findSub needle inbound.wire.ready with
      | some stop =>
        have hover : (some maxLen).any (· < stop + needle.length) = true := by
          simp [hlen stop hfind]
        dsimp only
        rw [if_pos hover]
        exact .right ⟨Option.some_ne_none _,rfl⟩
      | none =>
        have hover : (some maxLen).any (· ≤ inbound.wire.ready.length) = true := by
          simp [hnone]
        dsimp only
        rw [if_pos hover]
        exact .right ⟨Option.some_ne_none _,rfl⟩
  | closed hfind hlater hlen hwire =>
    rw [hfind]
    dsimp only
    rw [hbound.any_le hlen,hlater]
    exact .error hwire
  | failed hfind hlater hlen hwire =>
    rw [hfind]
    dsimp only
    rw [hbound.any_le hlen,hlater]
    exact .error hwire

end Until

/-- What one iteration of `read_exact_buffered` can do. -/
inductive ExactStep (length : ℕ) (output : Bytes) (wire : Wire) :
    EStateM.Result IoError Inbound (Bytes ⊕ Bytes) → Prop
  | done {inbound : Inbound} (hlen : length ≤ output.length) (hwire : inbound.wire = wire) :
      ExactStep length output wire (.ok (.inl output) inbound)
  | closed {inbound : Inbound} (hlen : output.length < length) (h : wire = ⟨[],[]⟩)
      (hwire : inbound.wire = wire) : ExactStep length output wire (.error framingClosed inbound)
  | failed {error : IoError} {inbound : Inbound} (hlen : output.length < length)
      (h : wire = inbound.wire.fail error) : ExactStep length output wire (.error error inbound)
  | more {read : Bytes} {inbound : Inbound} (h : wire = inbound.wire.prepend read)
      (hread : output.length + read.length ≤ length) :
      ExactStep length output wire (.ok (.inr (output ++ read)) inbound)

theorem readExactBody_step (length : ℕ) (output : Bytes) (inbound : Inbound) :
    ExactStep length output inbound.wire (readExactBody length output inbound) := by
  unfold readExactBody
  split
  next hlt =>
    have hreceived := readBuffered_received (show 0 < length - output.length by omega) inbound
    simp only [bind,EStateM.bind]
    generalize readBuffered (length - output.length) inbound = r at hreceived
    cases hreceived with
    | closed h hwire => exact .closed hlt h hwire
    | failed h => exact .failed hlt h
    | some h hne hlen =>
      dsimp only
      rw [if_neg hne]
      exact .more h (by omega)
  next hle => exact .done (by omega) rfl

/-- What `read_exact_buffered` can do when it holds some bytes already. -/
inductive ExactResult (length : ℕ) (output : Bytes) (wire : Wire) :
    EStateM.Result IoError Inbound Bytes → Prop
  | done {inbound : Inbound} {read total : Bytes} (htotal : total = output ++ read)
      (hlen : total.length = length) (hwire : wire = inbound.wire.prepend read) :
      ExactResult length output wire (.ok total inbound)
  | closed {inbound : Inbound} (hlen : output.length + wire.ready.length < length)
      (hlater : wire.later = []) (hwire : inbound.wire = ⟨[],[]⟩) :
      ExactResult length output wire (.error framingClosed inbound)
  | failed {error : IoError} {inbound : Inbound} (hlen : output.length + wire.ready.length < length)
      (hlater : wire.later = (error,inbound.wire.ready) :: inbound.wire.later) :
      ExactResult length output wire (.error error inbound)

theorem readExact_result (length : ℕ) (output : Bytes) (inbound : Inbound) :
    output.length ≤ length → ExactResult length output inbound.wire
      (loopM (readExactBody length) _ (readExact_lowers length) output inbound) := by
  refine loopM_induction (readExact_lowers length) (P := fun output inbound r =>
    output.length ≤ length → ExactResult length output inbound.wire r) ?_ ?_ ?_ output inbound
  · intro output inbound _ _ hb hle
    have hstep := readExactBody_step length output inbound
    rw [hb] at hstep
    cases hstep with
    | done hlen hwire =>
      refine .done (List.append_nil output).symm (by omega) ?_
      rw [Wire.prepend_nil,hwire]
  · intro output inbound _ _ hb hle
    have hstep := readExactBody_step length output inbound
    rw [hb] at hstep
    cases hstep with
    | closed hlen h hwire =>
      rw [h]
      exact .closed (by simpa using hlen) rfl (hwire.trans h)
    | failed hlen h =>
      rw [h]
      exact .failed (by simpa [Wire.fail] using hlen) rfl
  · intro output inbound _ _ r hb ih hle
    have hstep := readExactBody_step length output inbound
    rw [hb] at hstep
    cases hstep with
    | @more read inbound' h hread =>
      have hres := ih (by rw [List.length_append]; exact hread)
      rw [h]
      cases hres with
      | @done inbound'' read' _ htotal hlen hwire =>
        refine .done (show _ = output ++ (read ++ read') from ?_) hlen ?_
        · rw [htotal,List.append_assoc]
        · rw [hwire,Wire.prepend_prepend]
      | closed hlen hlater hwire =>
        rw [List.length_append] at hlen
        refine .closed ?_ hlater hwire
        simp only [Wire.prepend,List.length_append]
        omega
      | failed hlen hlater =>
        rw [List.length_append] at hlen
        refine .failed ?_ hlater
        simp only [Wire.prepend,List.length_append]
        omega

theorem readExact_simulates {left right : IoError → Prop} (length : ℕ) :
    Simulates Views left right (readExactBuffered length) (Wire.exact length) := by
  rintro inbound _ rfl
  have hresult := readExact_result length [] inbound (Nat.zero_le _)
  unfold readExactBuffered Wire.exact
  generalize loopM (readExactBody length) _ (readExact_lowers length) [] inbound = r at hresult
  cases hresult with
  | @done inbound' read _ htotal hlen hwire =>
    rw [List.nil_append] at htotal
    subst htotal
    subst hlen
    rw [hwire,if_pos (by simp [Wire.prepend])]
    simp only [Wire.prepend,List.take_left,List.drop_left]
    exact .ok rfl
  | closed hlen hlater hwire =>
    rw [if_neg (by simpa using hlen),hlater]
    exact .error hwire
  | failed hlen hlater =>
    rw [if_neg (by simpa using hlen),hlater]
    exact .error rfl

end H12Tiny.Sync
