import H12Tiny.Foundation.Frames
import H12Tiny.Sync.Body

/-! # What the readers of a body preserve

The readers touch the connection and the buffered bytes in three ways only: they read from
the connection, they take bytes off the front of the buffer, and the loop of `read_line` adds
what it read to its end. A property of the two that survives these survives every call on a
body, also one that fails.
-/
namespace H12Tiny.Sync

abbrev lineBody : Unit → Reader (ℕ ⊕ Unit) := readUntilBody crlf maxChunkLineBytes lineLimit lineClosed id

theorem lineBody_step (inbound : Inbound) :
    UntilStep crlf maxChunkLineBytes lineLimit lineClosed id inbound (lineBody () inbound) :=
  readUntilBody_step crlf maxChunkLineBytes lineLimit lineClosed id inbound

structure Steady (P : Inbound → Prop) : Prop where
  receive : ∀ capacity, Preserves P (receive capacity)
  drain : ∀ count, Preserves P (drain count : Reader Bytes)
  line : ∀ u, Preserves P (lineBody u)

namespace Steady
variable {P : Inbound → Prop} (h : Steady P)
include h

theorem readBuffered (capacity : ℕ) : Preserves P (readBuffered capacity) := by
  intro inbound hinbound
  unfold Sync.readBuffered
  split
  · exact h.receive capacity inbound hinbound
  · exact h.drain capacity inbound hinbound

theorem readExactBody (length : ℕ) (output : Bytes) : Preserves P (readExactBody length output) := by
  unfold Sync.readExactBody
  split
  · refine (h.readBuffered _).bind fun read => ?_
    split
    · exact Preserves.throw _
    · exact Preserves.pure _
  · exact Preserves.pure _

theorem readLine : Preserves P (readLine maxChunkLineBytes) := by
  refine (Preserves.loopM (readUntil_lowers _ _ _ _ _) h.line ()).bind fun stop => ?_
  refine (h.drain stop).bind fun text => ?_
  exact (h.drain _).bind fun _ => Preserves.pure _

theorem consumeTrailersBody (total : ℕ) : Preserves P (consumeTrailersBody total) :=
  h.readLine.bind fun _ => Preserves.ofExcept _

theorem readSeparator (separatorDue : Bool) : Preserves P (readSeparator separatorDue) := by
  unfold Sync.readSeparator
  split
  · exact (Preserves.loopM (readExact_lowers 2) (h.readExactBody 2) []).bind fun _ => Preserves.ofExcept _
  · exact Preserves.pure _

theorem nextChunk (separatorDue : Bool) : Preserves P (nextChunk separatorDue) := by
  refine (h.readSeparator separatorDue).bind fun _ => ?_
  refine h.readLine.bind fun line => ?_
  refine (Preserves.ofExcept _).bind fun size => ?_
  split
  · exact (Preserves.loopM consumeTrailers_lowers h.consumeTrailersBody 0).bind fun _ => Preserves.pure _
  · exact Preserves.pure _

theorem readChunkedBody (capacity : ℕ) (u : Unit) :
    Preserves (fun body : ChunkedBody => P body.toInbound) (readChunkedBody capacity u) := by
  intro body hbody
  unfold Sync.readChunkedBody
  split
  · exact hbody
  · split
    · split
      next hnext => exact (h.nextChunk _).of_eq hnext hbody
      next hnext =>
        split
        · exact (h.nextChunk _).of_eq hnext hbody
        · exact (h.nextChunk _).of_eq hnext hbody
    · split
      next hread => exact (h.readBuffered _).of_eq hread hbody
      next hread =>
        split
        · exact (h.readBuffered _).of_eq hread hbody
        · exact (h.readBuffered _).of_eq hread hbody

theorem read (capacity : ℕ) :
    Preserves (fun body : ResponseBody => P body.toInbound) (ResponseBody.read capacity) := by
  rintro ⟨inbound,mode⟩ hbody
  unfold ResponseBody.read
  split
  · exact hbody
  · cases mode with
    | empty => exact hbody
    | eof =>
      dsimp only
      split
      next hread => exact (h.readBuffered _).of_eq hread hbody
      next hread => exact (h.readBuffered _).of_eq hread hbody
    | contentLength remaining =>
      dsimp only
      split
      · exact hbody
      · split
        next hread => exact (h.readBuffered _).of_eq hread hbody
        next hread =>
          split
          · exact (h.readBuffered _).of_eq hread hbody
          · exact (h.readBuffered _).of_eq hread hbody
    | chunked state =>
      have hchunked := Preserves.loopM (readChunked_lowers capacity) (h.readChunkedBody capacity) ()
      dsimp only
      split
      next hread => exact hchunked.of_eq hread hbody
      next hread => exact hchunked.of_eq hread hbody

end Steady
end H12Tiny.Sync
