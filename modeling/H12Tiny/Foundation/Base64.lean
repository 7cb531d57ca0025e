import Mathlib.Data.Nat.Notation
import Mathlib.Data.Option.Basic

/-! # Base64

The standard alphabet with padding, as a strict decoder reads it: the text is made of groups
of four symbols, only the last one may be padded, and the bits that the padding stands for
are zero. So a text that is decoded is the one that the bytes are encoded to.
-/
namespace H12Tiny.Base64

def pad : UInt8 := 61

def symbol (n : ℕ) : UInt8 :=
  UInt8.ofNat (if n < 26 then 65 + n else if n < 52 then 71 + n else if n < 62 then n - 4
    else if n = 62 then 43 else 47)

def symbolValue (byte : UInt8) : Option ℕ :=
  let n := byte.toNat
  if 65 ≤ n ∧ n ≤ 90 then some (n - 65)
  else if 97 ≤ n ∧ n ≤ 122 then some (n - 71)
  else if 48 ≤ n ∧ n ≤ 57 then some (n + 4)
  else if n = 43 then some 62
  else if n = 47 then some 63
  else none

/-- The six bits at each place of a group. -/
def first (a : UInt8) : ℕ := a.toNat / 4
def second (a b : UInt8) : ℕ := a.toNat % 4 * 16 + b.toNat / 16
def third (b c : UInt8) : ℕ := b.toNat % 16 * 4 + c.toNat / 64
def fourth (c : UInt8) : ℕ := c.toNat % 64

def encode : List UInt8 → List UInt8
  | [] => []
  | [a] => [symbol (first a),symbol (second a 0),pad,pad]
  | [a,b] => [symbol (first a),symbol (second a b),symbol (third b 0),pad]
  | a :: b :: c :: rest =>
    symbol (first a) :: symbol (second a b) :: symbol (third b c) :: symbol (fourth c) :: encode rest

def high (i j : ℕ) : UInt8 := UInt8.ofNat (i * 4 + j / 16)
def middle (j k : ℕ) : UInt8 := UInt8.ofNat (j % 16 * 16 + k / 4)
def low (k l : ℕ) : UInt8 := UInt8.ofNat (k % 4 * 64 + l)

def decode : List UInt8 → Option (List UInt8)
  | [] => some []
  | w :: x :: y :: z :: rest => do
    let i ← symbolValue w
    let j ← symbolValue x
    if y = pad ∧ z = pad ∧ rest = [] then
      if j % 16 = 0 then some [high i j] else none
    else do
      let k ← symbolValue y
      if z = pad ∧ rest = [] then
        if k % 4 = 0 then some [high i j,middle j k] else none
      else do
        let l ← symbolValue z
        let bytes ← decode rest
        some (high i j :: middle j k :: low k l :: bytes)
  | _ => none

theorem symbolValue_symbol {n : ℕ} (h : n < 64) : symbolValue (symbol n) = some n := by
  have hall : ∀ n : Fin 64, symbolValue (symbol n) = some n.val := by decide
  exact hall ⟨n,h⟩

theorem symbol_symbolValue {byte : UInt8} {n : ℕ} (h : symbolValue byte = some n) :
    n < 64 ∧ symbol n = byte := by
  have hbyte : UInt8.ofNat byte.toNat = byte := UInt8.ofNat_toNat
  unfold symbolValue at h
  dsimp only at h
  unfold symbol
  split at h
  next hrange =>
    cases h
    rw [if_pos (by omega),show 65 + (byte.toNat - 65) = byte.toNat by omega]
    exact ⟨by omega,hbyte⟩
  next =>
    split at h
    next hrange =>
      cases h
      rw [if_neg (by omega),if_pos (by omega),show 71 + (byte.toNat - 71) = byte.toNat by omega]
      exact ⟨by omega,hbyte⟩
    next =>
      split at h
      next hrange =>
        cases h
        rw [if_neg (by omega),if_neg (by omega),if_pos (by omega),Nat.add_sub_cancel]
        exact ⟨by omega,hbyte⟩
      next =>
        split at h
        next heq =>
          cases h
          exact ⟨by omega,by rw [← hbyte,heq]; rfl⟩
        next =>
          split at h
          next heq =>
            cases h
            exact ⟨by omega,by rw [← hbyte,heq]; rfl⟩
          next => cases h

theorem symbolValue_pad : symbolValue pad = none := rfl

theorem symbol_ne_pad {n : ℕ} (h : n < 64) : symbol n ≠ pad := by
  intro hpad
  have hvalue := symbolValue_symbol h
  rw [hpad,symbolValue_pad] at hvalue
  cases hvalue

section Bits
variable (a b c : UInt8)

theorem first_lt : first a < 64 := by
  have ha := a.toNat_lt
  unfold first
  omega

theorem second_lt : second a b < 64 := by
  have hb := b.toNat_lt
  unfold second
  omega

theorem third_lt : third b c < 64 := by
  have hc := c.toNat_lt
  unfold third
  omega

theorem fourth_lt : fourth c < 64 := Nat.mod_lt _ (by decide)

theorem high_bits : high (first a) (second a b) = a := by
  have hb := b.toNat_lt
  rw [high,first,second,← @UInt8.ofNat_toNat a]
  congr 1
  rw [UInt8.ofNat_toNat]
  omega

theorem middle_bits : middle (second a b) (third b c) = b := by
  have hb := b.toNat_lt
  have hc := c.toNat_lt
  rw [middle,second,third,← @UInt8.ofNat_toNat b]
  congr 1
  rw [UInt8.ofNat_toNat]
  omega

theorem low_bits : low (third b c) (fourth c) = c := by
  have hc := c.toNat_lt
  rw [low,third,fourth,← @UInt8.ofNat_toNat c]
  congr 1
  rw [UInt8.ofNat_toNat]
  omega

end Bits

section Bytes
variable {i j k l : ℕ} (hi : i < 64) (hj : j < 64) (hk : k < 64) (hl : l < 64)

include hi hj in
theorem high_toNat : (high i j).toNat = i * 4 + j / 16 := UInt8.toNat_ofNat_of_lt' (by
  change _ < 256
  omega)

include hk in
theorem middle_toNat (j : ℕ) : (middle j k).toNat = j % 16 * 16 + k / 4 := UInt8.toNat_ofNat_of_lt' (by
  change _ < 256
  omega)

include hl in
theorem low_toNat (k : ℕ) : (low k l).toNat = k % 4 * 64 + l := UInt8.toNat_ofNat_of_lt' (by
  change _ < 256
  omega)

include hi hj in
theorem first_high : first (high i j) = i := by
  rw [first,high_toNat hi hj]
  omega

include hi hj hk in
theorem second_high : second (high i j) (middle j k) = j := by
  rw [second,high_toNat hi hj,middle_toNat hk]
  omega

include hi hj in
theorem second_last (hzero : j % 16 = 0) : second (high i j) 0 = j := by
  rw [second,high_toNat hi hj,UInt8.toNat_zero]
  omega

include hk hl in
theorem third_middle : third (middle j k) (low k l) = k := by
  rw [third,middle_toNat hk,low_toNat hl]
  omega

include hk in
theorem third_last (hzero : k % 4 = 0) : third (middle j k) 0 = k := by
  rw [third,middle_toNat hk,UInt8.toNat_zero]
  omega

include hl in
theorem fourth_low : fourth (low k l) = l := by
  rw [fourth,low_toNat hl]
  omega

end Bytes

theorem decode_encode (bytes : List UInt8) : decode (encode bytes) = some bytes := by
  induction bytes using encode.induct with
  | case1 => rfl
  | case2 a =>
    have hzero : second a 0 % 16 = 0 := by
      rw [second,UInt8.toNat_zero]
      omega
    rw [encode,decode,symbolValue_symbol (first_lt a),symbolValue_symbol (second_lt a 0)]
    simp only [Option.bind_eq_bind,Option.bind_some,and_self,if_true,if_pos hzero,high_bits]
  | case3 a b =>
    have hzero : third b 0 % 4 = 0 := by
      rw [third,UInt8.toNat_zero]
      omega
    have hne := symbol_ne_pad (third_lt b 0)
    rw [encode,decode,symbolValue_symbol (first_lt a),symbolValue_symbol (second_lt a b)]
    simp only [Option.bind_eq_bind,Option.bind_some,hne,false_and,if_false,symbolValue_symbol (third_lt b 0),
      and_self,if_true,if_pos hzero,high_bits,middle_bits]
  | case4 a b c rest ih =>
    have hthird := symbol_ne_pad (third_lt b c)
    have hfourth := symbol_ne_pad (fourth_lt c)
    rw [encode,decode,symbolValue_symbol (first_lt a),symbolValue_symbol (second_lt a b)]
    simp only [Option.bind_eq_bind,Option.bind_some,hthird,hfourth,false_and,if_false,
      symbolValue_symbol (third_lt b c),symbolValue_symbol (fourth_lt c),ih,high_bits,middle_bits,low_bits]

/-- A text that is decoded is canonical. -/
theorem encode_of_decode {text bytes : List UInt8} (h : decode text = some bytes) : encode bytes = text := by
  induction text using decode.induct generalizing bytes with
  | case1 =>
    cases h
    rfl
  | case2 w x y z rest ih =>
    rw [decode] at h
    obtain ⟨i,hw,hrest⟩ := Option.bind_eq_some_iff.mp h
    obtain ⟨j,hx,hgroup⟩ := Option.bind_eq_some_iff.mp hrest
    obtain ⟨hi,hfirst⟩ := symbol_symbolValue hw
    obtain ⟨hj,hsecond⟩ := symbol_symbolValue hx
    clear h hrest
    split at hgroup
    next hpad =>
      obtain ⟨rfl,rfl,rfl⟩ := hpad
      split at hgroup
      next hzero =>
        cases hgroup
        rw [encode,first_high hi hj,second_last hi hj hzero,hfirst,hsecond]
      next => cases hgroup
    next =>
      obtain ⟨k,hy,hlast⟩ := Option.bind_eq_some_iff.mp hgroup
      obtain ⟨hk,hthird⟩ := symbol_symbolValue hy
      clear hgroup
      split at hlast
      next hpad =>
        obtain ⟨rfl,rfl⟩ := hpad
        split at hlast
        next hzero =>
          cases hlast
          rw [encode,first_high hi hj,second_high hi hj hk,third_last hk hzero,hfirst,hsecond,hthird]
        next => cases hlast
      next =>
        obtain ⟨l,hz,hfull⟩ := Option.bind_eq_some_iff.mp hlast
        obtain ⟨hl,hfourth⟩ := symbol_symbolValue hz
        obtain ⟨tail,htail,hbytes⟩ := Option.bind_eq_some_iff.mp hfull
        clear hlast hfull
        cases hbytes
        rw [encode,first_high hi hj,second_high hi hj hk,third_middle hk hl,fourth_low hl,hfirst,hsecond,
          hthird,hfourth,ih htail]
  | case3 text hnil hgroup =>
    rw [decode] at h
    · cases h
    · exact hnil
    · exact hgroup

theorem decode_eq_some {text bytes : List UInt8} : decode text = some bytes ↔ encode bytes = text :=
  ⟨encode_of_decode,fun h => h ▸ decode_encode bytes⟩

/-- A printable symbol, or the padding. -/
def isSymbol (byte : UInt8) : Bool := (symbolValue byte).isSome || byte == pad

theorem isSymbol_symbol {n : ℕ} (h : n < 64) : isSymbol (symbol n) = true := by
  rw [isSymbol,symbolValue_symbol h]
  rfl

theorem encode_isSymbol (bytes : List UInt8) : ∀ byte ∈ encode bytes, isSymbol byte = true := by
  induction bytes using encode.induct with
  | case1 => exact fun _ hmem => absurd hmem List.not_mem_nil
  | case2 a =>
    simp only [encode,List.forall_mem_cons]
    exact ⟨isSymbol_symbol (first_lt a),isSymbol_symbol (second_lt a 0),rfl,rfl,
      fun _ hmem => absurd hmem List.not_mem_nil⟩
  | case3 a b =>
    simp only [encode,List.forall_mem_cons]
    exact ⟨isSymbol_symbol (first_lt a),isSymbol_symbol (second_lt a b),isSymbol_symbol (third_lt b 0),rfl,
      fun _ hmem => absurd hmem List.not_mem_nil⟩
  | case4 a b c rest ih =>
    simp only [encode,List.forall_mem_cons]
    exact ⟨isSymbol_symbol (first_lt a),isSymbol_symbol (second_lt a b),isSymbol_symbol (third_lt b c),
      isSymbol_symbol (fourth_lt c),ih⟩

end H12Tiny.Base64
