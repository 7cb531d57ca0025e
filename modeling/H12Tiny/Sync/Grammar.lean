import H12Tiny.Sync.FieldValues

/-! # Well-formed chunked bodies

The grammar of a chunked body, as structures that carry their own well-formedness: a
size line is hexadecimal digits, which white space may surround, and an optional
extension; a chunk is a size line and that many bytes; a body is its chunks, a size
line of value zero and its trailer lines. On the digits of the grammar the
standard library's integer parser computes the value they denote, and the only other
texts it accepts start with a plus sign.
-/
namespace H12Tiny.Sync

def isHex (byte : UInt8) : Bool := (digitValue byte).isSome

theorem isHex_eq (byte : UInt8) : isHex byte = isDigit 16 byte := by
  rw [isHex,isDigit]
  cases hd : digitValue byte with
  | none => rfl
  | some digit => simp [(digitValue_range hd).1]

theorem isHex_lt {byte : UInt8} (h : isHex byte = true) : byte < 0x80 :=
  isDigit_ascii ((isHex_eq byte).symm.trans h)

/-- A size line without its line end. -/
structure SizeLine where
  before : Bytes
  digits : Bytes
  after : Bytes
  extension : Option Bytes
  before_ows : ∀ byte ∈ before, isOws byte = true
  after_ows : ∀ byte ∈ after, isOws byte = true
  digits_ne : digits ≠ []
  digits_hex : ∀ byte ∈ digits, isHex byte = true
  fits : numeral 16 0 digits < u64Values
  extension_clean : ∀ text ∈ extension, cr ∉ text ∧ lf ∉ text

def isSizeLine (digits : Bytes) (extension : Option Bytes) : Bool :=
  digits ≠ [] ∧ digits.all isHex = true ∧ numeral 16 0 digits < u64Values ∧
    extension.all (fun text => text.all fun byte => byte ≠ cr ∧ byte ≠ lf) = true

theorem isSizeLine_spec {digits : Bytes} {extension : Option Bytes} (h : isSizeLine digits extension = true) :
    digits ≠ [] ∧ (∀ byte ∈ digits, isHex byte = true) ∧ numeral 16 0 digits < u64Values ∧
      ∀ text ∈ extension, cr ∉ text ∧ lf ∉ text := by
  rw [isSizeLine,decide_eq_true_eq] at h
  refine ⟨h.1,List.all_eq_true.mp h.2.1,h.2.2.1,?_⟩
  intro text ht
  have hall := h.2.2.2
  rw [Option.mem_def.mp ht,Option.all_some,List.all_eq_true] at hall
  constructor
  · intro hm
    exact (of_decide_eq_true (hall cr hm)).1 rfl
  · intro hm
    exact (of_decide_eq_true (hall lf hm)).2 rfl

namespace SizeLine

def bare (digits : Bytes) (extension : Option Bytes) (h : isSizeLine digits extension = true) : SizeLine where
  before := []
  digits := digits
  after := []
  extension := extension
  before_ows := List.forall_mem_nil _
  after_ows := List.forall_mem_nil _
  digits_ne := (isSizeLine_spec h).1
  digits_hex := (isSizeLine_spec h).2.1
  fits := (isSizeLine_spec h).2.2.1
  extension_clean := (isSizeLine_spec h).2.2.2

def value (line : SizeLine) : ℕ := numeral 16 0 line.digits

def text (line : SizeLine) : Bytes :=
  line.before ++ line.digits ++ line.after ++ line.extension.elim [] (semicolon :: ·)

theorem not_mem_size (line : SizeLine) {byte : UInt8} (hhex : isHex byte = false) (hows : isOws byte = false) :
    byte ∉ line.before ++ line.digits ++ line.after := by
  intro hm
  rw [List.mem_append,List.mem_append] at hm
  rcases hm with (hm | hm) | hm
  · rw [line.before_ows byte hm] at hows
    cases hows
  · rw [line.digits_hex byte hm] at hhex
    cases hhex
  · rw [line.after_ows byte hm] at hows
    cases hows

theorem not_mem_text (line : SizeLine) {byte : UInt8} (hhex : isHex byte = false) (hows : isOws byte = false)
    (hsemi : byte ≠ semicolon) (hext : ∀ text ∈ line.extension, byte ∉ text) : byte ∉ line.text := by
  intro hm
  rw [text,List.mem_append] at hm
  rcases hm with hm | hm
  · exact line.not_mem_size hhex hows hm
  · cases he : line.extension with
    | none =>
      rw [he] at hm
      cases hm
    | some extension =>
      rw [he] at hm
      rcases List.mem_cons.mp hm with rfl | hm
      · exact hsemi rfl
      · exact hext extension (by rw [he]; rfl) hm

theorem cr_not_mem (line : SizeLine) : cr ∉ line.text :=
  line.not_mem_text (by decide) (by decide) (by decide) (fun text ht => (line.extension_clean text ht).1)

theorem text_ne (line : SizeLine) : line.text ≠ [] := by
  intro h
  simp only [text,List.append_eq_nil_iff] at h
  exact line.digits_ne h.1.1.2

theorem takeWhile_text (line : SizeLine) :
    line.text.takeWhile (· ≠ semicolon) = line.before ++ line.digits ++ line.after := by
  have hnot : semicolon ∉ line.before ++ line.digits ++ line.after :=
    line.not_mem_size (by decide) (by decide)
  rw [text,List.takeWhile_append_of_pos (ne_of_not_mem hnot)]
  cases line.extension with
  | none => simp
  | some extension => simp

theorem digits_numeral (line : SizeLine) : Numeral 16 u64Values line.digits line.value where
  nonempty := line.digits_ne
  digits byte hm := (isHex_eq byte).symm.trans (line.digits_hex byte hm)
  value := rfl
  fits := line.fits

theorem fromStrRadix_digits (line : SizeLine) : fromStrRadix 16 u64Values line.digits = some line.value :=
  (fromStrRadix_iff (by decide) (by decide)).mpr (.inl line.digits_numeral)

theorem parseChunkSize_text (line : SizeLine) : parseChunkSize line.text = .ok line.value := by
  have htrim : trimOws (line.text.takeWhile (· ≠ semicolon)) = line.digits := by
    rw [takeWhile_text]
    exact trimOws_surrounded line.before_ows line.after_ows
      (Bare.of_forall fun byte hm => isDigit_not_ows (line.digits_numeral.digits byte hm))
  have hutf8 : utf8Valid line.digits = true :=
    utf8Valid_of_ascii (fun byte hm => isHex_lt (line.digits_hex byte hm))
  simp only [parseChunkSize,htrim,hutf8,if_true,fromStrRadix_digits]

end SizeLine

/-- Digits without a sign are all the integer parser accepts besides a plus sign. -/
theorem fromStrRadix_eq_some {digits : Bytes} {n : ℕ} (h : fromStrRadix 16 u64Values digits = some n)
    (hplus : plus ∉ digits) : Numeral 16 u64Values digits n := by
  rcases (fromStrRadix_iff (by decide) (by decide)).mp h with hn | ⟨rest,rfl,_⟩
  · exact hn
  · exact absurd List.mem_cons_self hplus

theorem parseChunkSize_eq_ok {line : Bytes} {n : ℕ} (h : parseChunkSize line = .ok n) :
    fromStrRadix 16 u64Values (trimOws (line.takeWhile (· ≠ semicolon))) = some n := by
  simp only [parseChunkSize] at h
  split at h
  · split at h
    next hsome =>
      cases h
      exact hsome
    next => cases h
  · cases h

theorem dropWhile_semicolon (line : Bytes) : ∃ extension : Option Bytes,
    line.dropWhile (· ≠ semicolon) = extension.elim [] (semicolon :: ·) ∧
      ∀ text ∈ extension, ∀ byte ∈ text, byte ∈ line := by
  cases hd : line.dropWhile (· ≠ semicolon) with
  | nil => exact ⟨none,rfl,nofun⟩
  | cons byte rest =>
    have hhead := List.head?_dropWhile_not (· ≠ semicolon) line
    rw [hd] at hhead
    have hsemi : byte = semicolon := by simpa using hhead
    refine ⟨some rest,by rw [hsemi]; rfl,?_⟩
    intro text ht b hb
    cases ht
    have hmem : b ∈ line.dropWhile (· ≠ semicolon) := by
      rw [hd]
      exact List.mem_cons_of_mem _ hb
    exact (List.dropWhile_sublist _).subset hmem

/-- A line the decoder accepts is a size line, unless it holds a plus sign before the
extension or a bare line end. -/
theorem SizeLine.exists_of_parse {line : Bytes} {n : ℕ} (h : parseChunkSize line = .ok n)
    (hplus : plus ∉ line.takeWhile (· ≠ semicolon)) (hcr : cr ∉ line) (hlf : lf ∉ line) :
    ∃ size : SizeLine, size.text = line ∧ size.value = n := by
  obtain ⟨before,after,hsplit,hbefore,hafter⟩ := trimOws_split (line.takeWhile (· ≠ semicolon))
  obtain ⟨extension,hext,hmem⟩ := dropWhile_semicolon line
  have hnoplus : plus ∉ trimOws (line.takeWhile (· ≠ semicolon)) := by
    intro hm
    apply hplus
    rw [hsplit]
    exact List.mem_append_left _ (List.mem_append_right _ hm)
  have hsize := fromStrRadix_eq_some (parseChunkSize_eq_ok h) hnoplus
  have hhex : ∀ byte ∈ trimOws (line.takeWhile (· ≠ semicolon)), isHex byte = true := fun byte hm =>
    (isHex_eq byte).trans (hsize.digits byte hm)
  refine ⟨⟨before,_,after,extension,hbefore,hafter,hsize.nonempty,hhex,hsize.value ▸ hsize.fits,?_⟩,?_,
    hsize.value⟩
  · intro text ht
    exact ⟨fun hm => hcr (hmem text ht cr hm),fun hm => hlf (hmem text ht lf hm)⟩
  · simp only [SizeLine.text]
    rw [← hsplit,← hext,List.takeWhile_append_dropWhile]

/-- A trailer line without its line end. -/
structure Trailer where
  text : Bytes
  nonempty : text ≠ []
  has_colon : colon ∈ text
  clean : cr ∉ text ∧ lf ∉ text

structure Chunk where
  size : SizeLine
  data : Bytes
  nonempty : data ≠ []
  size_eq : size.value = data.length

structure Chunked where
  chunks : List Chunk
  last : SizeLine
  last_zero : last.value = 0
  trailers : List Trailer

namespace Chunked

def wire (body : Chunked) : Bytes :=
  (body.chunks.map fun chunk => chunk.size.text ++ crlf ++ chunk.data ++ crlf).flatten ++
    body.last.text ++ crlf ++ (body.trailers.map fun trailer => trailer.text ++ crlf).flatten ++ crlf

def data (body : Chunked) : Bytes := (body.chunks.map Chunk.data).flatten

/-- The limits of the decoder: on each line with its line end, and on the trailers with
the blank line that ends them. -/
def WithinLimits (body : Chunked) : Prop :=
  (∀ chunk ∈ body.chunks, chunk.size.text.length + 2 ≤ 8 * 1024) ∧
    body.last.text.length + 2 ≤ 8 * 1024 ∧
    (∀ trailer ∈ body.trailers, trailer.text.length + 2 ≤ 8 * 1024) ∧
    (body.trailers.map fun trailer => trailer.text.length + 2).sum + 2 ≤ 64 * 1024

end Chunked
end H12Tiny.Sync
