import H12Tiny.Util.Bodies
import H12Tiny.Web.Sse

/-! # Keep-alive frames of an event stream

`KeepAliveStream` and the response that an event stream is sent as. The stream is polled
before the timer, so its items keep their places and an item that is ready is never
displaced; the timer fires as soon as a poll finds that nothing was sent for the interval.
A reader of the response sees a block that sets nothing for every comment that was
inserted, and otherwise what it would see of the stream itself. Instants and durations are
in nanoseconds.
-/
namespace H12Tiny.Web
open EventStream
open Util (Frame dataOf delivered)

class IntoSseEvent (ι : Type) (ε : outParam Type) where
  intoSseEvent : ι → Except ε Event

export IntoSseEvent (intoSseEvent)

/-- A keep-alive item is sent as the event it is made of. -/
class KeepAliveItem (ι : Type) (ε : outParam Type) extends IntoSseEvent ι ε where
  keepAlive : Event → ι
  intoSseEvent_keepAlive : ∀ event, intoSseEvent (keepAlive event) = .ok event

instance : KeepAliveItem Event Empty where
  intoSseEvent := .ok
  keepAlive := id
  intoSseEvent_keepAlive _ := rfl

instance {ε : Type} : KeepAliveItem (Except ε Event) ε where
  intoSseEvent := id
  keepAlive := .ok
  intoSseEvent_keepAlive _ := rfl

/-- An interval of zero is refused by an assertion. -/
structure KeepAlive where
  event : Event
  interval : ℕ
  positive : 0 < interval

namespace KeepAlive

def new : KeepAlive := ⟨(Event.new.comment []).get rfl,15000000000,by decide⟩

def setInterval (self : KeepAlive) (interval : ℕ) : Option KeepAlive :=
  if h : 0 < interval then some { self with interval, positive := h } else none

def setEvent (self : KeepAlive) (event : Event) : KeepAlive := { self with event }

def text (self : KeepAlive) (text : Text) : Option KeepAlive := (Event.new.comment text).map self.setEvent

end KeepAlive

structure KeepAliveStream (σ : Type) where
  inner : σ
  timer : ℕ
  keepAlive : KeepAlive

namespace KeepAliveStream
variable {σ ι ε : Type}

def new (now : ℕ) (inner : σ) (keepAlive : KeepAlive) : KeepAliveStream σ :=
  ⟨inner,now + keepAlive.interval,keepAlive⟩

def resetTimer (now : ℕ) (self : KeepAliveStream σ) : KeepAliveStream σ :=
  { self with timer := now + self.keepAlive.interval }

def pollNext [KeepAliveItem ι ε] (stream : Source σ (Option ι)) :
    Source (KeepAliveStream σ) (Option ι) := fun now self =>
  match stream now self.inner with
  | (.ready (some item),inner) => (.ready (some item),{ self with inner }.resetTimer now)
  | (.ready none,inner) => (.ready none,{ self with inner })
  | (.pending,inner) =>
    if self.timer ≤ now then
      (.ready (some (KeepAliveItem.keepAlive self.keepAlive.event)),{ self with inner }.resetTimer now)
    else (.pending,{ self with inner })

end KeepAliveStream

namespace Sse
variable {σ ι ε : Type} [IntoSseEvent ι ε]

def frame (item : ι) : Except ε Frame := (intoSseEvent item).map fun event => .data event.encode

/-- The body that `into_response` makes of an event stream. -/
def body (stream : Source σ (Option ι)) : Util.Body σ ε := stream.map (Option.map frame)

end Sse

def sends {ι : Type} : Poll (Option ι) → Bool
  | .ready (some _) => true
  | .ready none => false
  | .pending => false

namespace KeepAliveStream
variable {σ ι ε : Type} [KeepAliveItem ι ε]

section Polling
variable (stream : Source σ (Option ι)) (now : ℕ) (self : KeepAliveStream σ)

theorem pollNext_ready {answer : Option ι} (h : (stream now self.inner).1 = .ready answer) :
    (pollNext stream now self).1 = .ready answer := by
  unfold pollNext
  rcases hpoll : stream now self.inner with ⟨polled,inner⟩
  rw [hpoll] at h
  cases h
  cases answer <;> rfl

theorem pollNext_pending (h : (stream now self.inner).1 = .pending) :
    (pollNext stream now self).1 =
      if self.timer ≤ now then .ready (some (KeepAliveItem.keepAlive self.keepAlive.event)) else .pending := by
  unfold pollNext
  rcases hpoll : stream now self.inner with ⟨polled,inner⟩
  rw [hpoll] at h
  cases h
  exact apply_ite Prod.fst _ _ _

theorem pollNext_state : (pollNext stream now self).2 =
    if sends (pollNext stream now self).1 then { self with inner := (stream now self.inner).2 }.resetTimer now
    else { self with inner := (stream now self.inner).2 } := by
  unfold pollNext
  rcases stream now self.inner with ⟨(_ | item) | _,inner⟩
  · rfl
  · rfl
  · simp only []
    split <;> rfl

end Polling

section InStep
variable (stream : Source σ (Option ι)) (schedule : Schedule) (s : σ) (keepAlive : KeepAlive)

/-- The answer of the stream with keep-alive frames to the poll with this number. -/
def answerAt (n : ℕ) : Poll (Option ι) :=
  (pollNext stream).answerAt schedule (new schedule.start s keepAlive) n

/-- The last instant before a poll at which something was sent, or the start. -/
def lastSent (n : ℕ) : ℕ := schedule.lastBefore (fun k => sends (answerAt stream schedule s keepAlive k)) n

/-- The stream is polled as if alone, and the timer was set when something was sent last. -/
theorem stateAt_pollNext (n : ℕ) :
    (pollNext stream).stateAt schedule (new schedule.start s keepAlive) n =
      ⟨stream.stateAt schedule s n,lastSent stream schedule s keepAlive n + keepAlive.interval,keepAlive⟩ := by
  induction n with
  | zero => rfl
  | succ n ih =>
    have hstate := pollNext_state stream (schedule.instant n)
      ((pollNext stream).stateAt schedule (new schedule.start s keepAlive) n)
    rw [Source.stateAt_succ,hstate]
    split
    next hsends =>
      rw [lastSent,Schedule.lastBefore_active hsends,ih]
      rfl
    next hquiet =>
      rw [lastSent,Schedule.lastBefore_quiet (Bool.eq_false_iff.mpr hquiet),ih]
      rfl

variable {stream schedule s} {n : ℕ}

theorem answerAt_ready {answer : Option ι} (h : stream.answerAt schedule s n = .ready answer) :
    answerAt stream schedule s keepAlive n = .ready answer := by
  apply pollNext_ready
  rw [stateAt_pollNext]
  exact h

theorem answerAt_pending (h : stream.answerAt schedule s n = .pending) :
    answerAt stream schedule s keepAlive n =
      if lastSent stream schedule s keepAlive n + keepAlive.interval ≤ schedule.instant n then
        .ready (some (KeepAliveItem.keepAlive keepAlive.event))
      else .pending := by
  unfold answerAt Source.answerAt
  rw [stateAt_pollNext]
  exact pollNext_pending _ _ _ h

end InStep
end KeepAliveStream

/-- Every item, error and end of the stream is passed on by the poll that finds it, and the
stream is polled as often as without the wrapper. In between, a keep-alive item is sent
by the first poll that comes an interval or more after whatever was sent last, and by no
earlier one. -/
theorem keepAlive_fills_gaps {σ ι ε : Type} [KeepAliveItem ι ε] (stream : Source σ (Option ι))
    (schedule : Schedule) (s : σ) (keepAlive : KeepAlive) (n : ℕ) :
    let answerAt := KeepAliveStream.answerAt stream schedule s keepAlive
    (((KeepAliveStream.pollNext stream).stateAt schedule (.new schedule.start s keepAlive) n).inner =
        stream.stateAt schedule s n) ∧
      (∀ answer, stream.answerAt schedule s n = .ready answer → answerAt n = .ready answer) ∧
      (stream.answerAt schedule s n = .pending →
        (answerAt n = .pending ∧ (schedule.instant n < schedule.start + keepAlive.interval ∨
            ∃ m < n, sends (answerAt m) = true ∧
              schedule.instant n < schedule.instant m + keepAlive.interval)) ∨
          (answerAt n = .ready (some (KeepAliveItem.keepAlive keepAlive.event)) ∧
            schedule.start + keepAlive.interval ≤ schedule.instant n ∧
            ∀ m < n, sends (answerAt m) = true →
              schedule.instant m + keepAlive.interval ≤ schedule.instant n)) := by
  intro answerAt
  refine ⟨by rw [KeepAliveStream.stateAt_pollNext],fun _ => KeepAliveStream.answerAt_ready keepAlive,fun hpending => ?_⟩
  have hanswer := KeepAliveStream.answerAt_pending keepAlive hpending
  split at hanswer
  next hdue =>
    refine .inr ⟨hanswer,?_,fun m hm hsends => ?_⟩
    · have hstart := schedule.start_le_lastBefore (fun k => sends (answerAt k)) n
      exact (Nat.add_le_add_right hstart _).trans hdue
    · have hlast : schedule.instant m ≤ schedule.lastBefore (fun k => sends (answerAt k)) n :=
        schedule.instant_le_lastBefore hsends hm
      exact (Nat.add_le_add_right hlast _).trans hdue
  next hearly =>
    have hlt := Nat.not_le.mp hearly
    refine .inl ⟨hanswer,?_⟩
    rcases schedule.lastBefore_cases (fun k => sends (answerAt k)) n with hlast | ⟨m,hm,hsends,hlast⟩
    · exact .inl (hlast ▸ hlt)
    · exact .inr ⟨m,hm,hsends,hlast ▸ hlt⟩

section Reading

/-- An event of comments alone. -/
structure Event.Silent (e : Event) : Prop where
  data : e.data = none
  event : e.event = none
  id : e.id = none
  retry : e.retry = none

theorem KeepAlive.new_silent : KeepAlive.new.event.Silent := ⟨rfl,rfl,rfl,rfl⟩

theorem KeepAlive.text_silent {self keepAlive : KeepAlive} {text : Text} (h : self.text text = some keepAlive) :
    keepAlive.event.Silent := by
  obtain ⟨event,hevent,rfl⟩ := Option.map_eq_some_iff.mp h
  unfold Event.comment at hevent
  split at hevent
  · cases hevent
    exact ⟨rfl,rfl,rfl,rfl⟩
  · cases hevent

/-- Frames are read one after the other, whatever the events hold. -/
theorem Event.parse_append (self : Event) (rest : Text) :
    parse (self.head ++ [lf] ++ rest) = parse (self.head ++ [lf]) ++ parse rest := by
  have hlines : ∀ text, lines false [] (self.head ++ [lf] ++ text) =
      lines false [] self.head ++ [] :: lines false [] text := by
    intro text
    rw [List.append_assoc,self.closed_head.lines_append]
    rfl
  have hframe := hlines []
  rw [List.append_nil] at hframe
  rw [parse,hlines,parse,hframe]
  exact Block.blocks_closed _ _ _

theorem Event.Silent.parse_frame {self : Event} (h : self.Silent) : parse (self.head ++ [lf]) = [{}] := by
  have hhead : self.head = self.comments.flatMap fun comment => (':' :: comment) ++ [lf] := by
    rw [self.head_eq,dataText,trailer,h.data,h.event,h.id,h.retry]
    exact List.append_nil _
  have hlines : lines false [] (self.head ++ [lf]) = self.comments.map (':' :: ·) ++ [[]] := by
    rw [self.closed_head.lines_append,hhead,Event.lines_comments _ self.single]
    rfl
  have hfields := fields_comments {} self.comments []
  rw [List.append_nil] at hfields
  rw [parse,hlines,Block.blocks_append _ (by simp),hfields]
  rfl

variable {σ ι ε : Type}

def eventsOf [IntoSseEvent ι ε] (items : List (Option ι)) : List Event :=
  items.filterMap fun item => item.bind fun item => (intoSseEvent item).toOption

theorem dataOf_frames [IntoSseEvent ι ε] (items : List (Option ι)) :
    dataOf (items.map (Option.map Sse.frame)).reduceOption = (eventsOf items).map Event.encode := by
  induction items with
  | nil => rfl
  | cons item items ih =>
    rcases item with _ | item
    · exact ih
    · rw [List.map_cons,Option.map_some,List.reduceOption_cons_of_some]
      unfold eventsOf at ih ⊢
      rw [List.filterMap_cons,Option.bind_some]
      cases hitem : intoSseEvent item with
      | error e =>
        rw [Sse.frame,hitem]
        exact ih
      | ok event =>
        rw [Sse.frame,hitem]
        exact congrArg (event.encode :: ·) ih

theorem delivered_body [IntoSseEvent ι ε] (stream : Source σ (Option ι)) (schedule : Schedule) (s : σ) (n : ℕ) :
    delivered (Sse.body stream) schedule s n =
      (eventsOf (stream.yields schedule s n)).flatMap Event.encode := by
  rw [delivered,Sse.body,Source.yields_map,dataOf_frames]
  exact (List.flatMap_def ..).symm

/-- What a reader takes from the frames of a list of events. -/
def observed (events : List Event) : List Block := significant (events.flatMap fun event => parse (event.head ++ [lf]))

theorem parse_frames (events : List Event) : parse (events.flatMap fun event => event.head ++ [lf]) =
    events.flatMap fun event => parse (event.head ++ [lf]) := by
  induction events with
  | nil => rfl
  | cons event events ih => rw [List.flatMap_cons,List.flatMap_cons,Event.parse_append,ih]

theorem parseBytes_encode (events : List Event) :
    parseBytes (events.flatMap Event.encode) = some (events.flatMap fun event => parse (event.head ++ [lf])) := by
  have htext : events.flatMap Event.encode =
      (events.flatMap fun event => event.head ++ [lf]).flatMap String.utf8EncodeChar := by
    rw [List.flatMap_assoc]
    rfl
  rw [htext,parseBytes_utf8,parse_frames]

theorem observed_append (first second : List Event) :
    observed (first ++ second) = observed first ++ observed second := by
  unfold observed
  rw [List.flatMap_append,significant_append]

theorem eventsOf_append [IntoSseEvent ι ε] (first second : List (Option ι)) :
    eventsOf (first ++ second) = eventsOf first ++ eventsOf second := List.filterMap_append ..

theorem Event.Silent.observed {event : Event} (h : event.Silent) : observed [event] = [] := by
  unfold Web.observed
  rw [List.flatMap_singleton,h.parse_frame]
  rfl

/-- Between the events of the stream a reader sees nothing of the keep-alive items. -/
theorem observed_keepAlive [KeepAliveItem ι ε] (stream : Source σ (Option ι)) (schedule : Schedule) (s : σ)
    {keepAlive : KeepAlive} (h : keepAlive.event.Silent) (n : ℕ) :
    observed (eventsOf ((KeepAliveStream.pollNext stream).yields schedule (.new schedule.start s keepAlive) n)) =
      observed (eventsOf (stream.yields schedule s n)) := by
  induction n with
  | zero => rfl
  | succ n ih =>
    rw [Source.yields,Source.yields,eventsOf_append,eventsOf_append,observed_append,observed_append,ih]
    refine congrArg (observed _ ++ ·) ?_
    cases hanswer : stream.answerAt schedule s n with
    | ready answer =>
      have hsame := KeepAliveStream.answerAt_ready keepAlive hanswer
      rw [KeepAliveStream.answerAt] at hsame
      rw [hsame]
    | pending =>
      have hfill := KeepAliveStream.answerAt_pending keepAlive hanswer
      rw [KeepAliveStream.answerAt] at hfill
      rw [hfill]
      split
      · have hevent : eventsOf [some (KeepAliveItem.keepAlive keepAlive.event : ι)] = [keepAlive.event] := by
          simp [eventsOf,KeepAliveItem.intoSseEvent_keepAlive,Except.toOption]
        exact (congrArg observed hevent).trans h.observed
      · rfl

end Reading

/-- However long the stream is idle and however often it is polled, a client that reads the
response with keep-alive comments takes the same from it as from the response without them:
the same blocks in the same order, apart from blocks that set nothing. -/
theorem keepAlive_unseen {σ ι ε : Type} [KeepAliveItem ι ε] (stream : Source σ (Option ι)) (schedule : Schedule)
    (s : σ) (keepAlive : KeepAlive) (h : keepAlive.event.Silent) (n : ℕ) :
    ∃ kept plain,
      parseBytes (delivered (Sse.body (KeepAliveStream.pollNext stream)) schedule
        (.new schedule.start s keepAlive) n) = some kept ∧
      parseBytes (delivered (Sse.body stream) schedule s n) = some plain ∧
      significant kept = significant plain := by
  refine ⟨_,_,?_,?_,observed_keepAlive stream schedule s h n⟩
  · rw [delivered_body,parseBytes_encode]
  · rw [delivered_body,parseBytes_encode]

def ticking : Schedule := ⟨0,fun n => n + 1,Nat.zero_le _,fun _ _ h => Nat.succ_le_succ h⟩

def frequent : KeepAlive := { KeepAlive.new with interval := 1, positive := Nat.one_pos }

/-- Two events and a pause between them. -/
def pausingEvents : List (Poll (Option Event)) :=
  [.ready (some (Event.new.setData ['a'])),.pending,.ready (some (Event.new.setData ['b']))]

/-- The comment is sent between the events, and read as nothing. -/
theorem keepAlive_unseen_pausing : frequent.event.Silent ∧
    delivered (Sse.body (KeepAliveStream.pollNext (Source.scripted (.ready none)))) ticking
      (.new ticking.start pausingEvents frequent) 4 =
      [100,97,116,97,58,32,97,10,10,58,10,10,100,97,116,97,58,32,98,10,10] ∧
    ∃ kept plain,
      parseBytes (delivered (Sse.body (KeepAliveStream.pollNext (Source.scripted (.ready none)))) ticking
        (.new ticking.start pausingEvents frequent) 4) = some kept ∧
      parseBytes (delivered (Sse.body (Source.scripted (.ready none))) ticking pausingEvents 4) = some plain ∧
      significant kept = significant plain :=
  ⟨KeepAlive.new_silent,by decide,
    keepAlive_unseen (Source.scripted (.ready none)) ticking pausingEvents frequent KeepAlive.new_silent 4⟩

end H12Tiny.Web
