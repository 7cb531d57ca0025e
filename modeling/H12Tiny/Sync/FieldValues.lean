import H12Tiny.Sync.Bytes

/-! # Field values by their grammar

What a field value says, on its bytes: a text with blanks around it, a number in decimal
digits, or a list whose elements stand between commas. An element without text does not
count. Trimming, and splitting at commas, find what the grammar says.
-/
namespace H12Tiny.Sync

section Blanks

def Bare (text : Bytes) : Prop :=
  (∀ byte ∈ text.head?, isOws byte = false) ∧ ∀ byte ∈ text.getLast?, isOws byte = false

/-- The text, with blanks around it. -/
def Surrounded (value text : Bytes) : Prop :=
  ∃ before after, (∀ byte ∈ before, isOws byte = true) ∧ (∀ byte ∈ after, isOws byte = true) ∧
    value = before ++ text ++ after

theorem Bare.of_forall {text : Bytes} (h : ∀ byte ∈ text, isOws byte = false) : Bare text :=
  ⟨fun byte hm => h byte (List.mem_of_mem_head? hm),fun byte hm => h byte (List.mem_of_mem_getLast? hm)⟩

theorem trimOws_split (bytes : Bytes) : ∃ before after, bytes = before ++ trimOws bytes ++ after ∧
    (∀ byte ∈ before, isOws byte = true) ∧ ∀ byte ∈ after, isOws byte = true := by
  refine ⟨bytes.takeWhile isOws,(bytes.dropWhile isOws).rtakeWhile isOws,?_,?_,?_⟩
  · rw [trimOws,List.append_assoc,List.rdropWhile_append_rtakeWhile,List.takeWhile_append_dropWhile]
  · intro byte hm
    exact List.mem_takeWhile_imp hm
  · intro byte hm
    exact List.mem_rtakeWhile_imp hm

theorem rdropWhile_eq_self {text : Bytes} (h : ∀ byte ∈ text.getLast?, isOws byte = false) :
    text.rdropWhile isOws = text := by
  rw [List.rdropWhile_eq_self_iff]
  intro hne
  rw [h _ (List.getLast?_eq_some_getLast hne)]
  exact Bool.false_ne_true

theorem trimOws_surrounded {before text after : Bytes} (hb : ∀ byte ∈ before, isOws byte = true)
    (ha : ∀ byte ∈ after, isOws byte = true) (ht : Bare text) : trimOws (before ++ text ++ after) = text := by
  have hright : (text ++ after).rdropWhile isOws = text.rdropWhile isOws := by
    rw [List.rdropWhile,List.reverse_append,List.dropWhile_append_of_pos,List.rdropWhile]
    intro byte hm
    exact ha byte (List.mem_reverse.mp hm)
  rw [trimOws,List.append_assoc,List.dropWhile_append_of_pos hb]
  cases text with
  | nil =>
    have hnil : after.dropWhile isOws = [] := List.dropWhile_eq_nil_iff.mpr ha
    rw [List.nil_append,hnil]
    rfl
  | cons byte rest =>
    have hleft : (byte :: rest ++ after).dropWhile isOws = byte :: rest ++ after := by
      simp [ht.1 byte rfl]
    rw [hleft,hright]
    exact rdropWhile_eq_self ht.2

theorem trimOws_bare (value : Bytes) : Bare (trimOws value) := by
  constructor
  · intro byte hm
    have hprefix : trimOws value <+: value.dropWhile isOws := List.rdropWhile_prefix _ _
    have hhead := List.head?_dropWhile_not isOws value
    obtain ⟨rest,hrest⟩ := hprefix
    rw [← hrest,List.head?_append_of_ne_nil _ (List.ne_nil_of_mem (List.mem_of_mem_head? hm)),
      Option.mem_def.mp hm] at hhead
    exact hhead
  · intro byte hm
    have hne := List.ne_nil_of_mem (List.mem_of_mem_getLast? hm)
    have hlast := List.rdropWhile_last_not isOws (value.dropWhile isOws) hne
    rw [Option.mem_def,List.getLast?_eq_some_getLast hne,Option.some.injEq] at hm
    rw [← hm]
    exact Bool.eq_false_iff.mpr hlast

/-- Trimming finds the text between the blanks. -/
theorem trimOws_eq_iff {value text : Bytes} : trimOws value = text ↔ Surrounded value text ∧ Bare text := by
  constructor
  · rintro rfl
    obtain ⟨before,after,hsplit,hb,ha⟩ := trimOws_split value
    exact ⟨⟨before,after,hb,ha,hsplit⟩,trimOws_bare value⟩
  · rintro ⟨⟨before,after,hb,ha,rfl⟩,hbare⟩
    exact trimOws_surrounded hb ha hbare

end Blanks

section Lists

def comma : UInt8 := 44

/-- What stands between two commas is one element, or none if it is blank. -/
inductive Element : Bytes → List Bytes → Prop
  | blank {value : Bytes} : Surrounded value [] → Element value []
  | text {value text : Bytes} : Surrounded value text → Bare text → text ≠ [] → Element value [text]

/-- The elements of a comma separated list, from left to right. -/
inductive Lists : Bytes → List Bytes → Prop
  | last {value : Bytes} {texts : List Bytes} : comma ∉ value → Element value texts → Lists value texts
  | more {value rest : Bytes} {texts others : List Bytes} : comma ∉ value → Element value texts →
      Lists rest others → Lists (value ++ comma :: rest) (texts ++ others)

theorem element_iff {value : Bytes} {texts : List Bytes} :
    Element value texts ↔ [trimOws value].filter (· ≠ []) = texts := by
  constructor
  · intro h
    cases h with
    | blank h =>
      have hempty : Bare [] := ⟨nofun,nofun⟩
      rw [trimOws_eq_iff.mpr ⟨h,hempty⟩]
      rfl
    | text h hbare hne =>
      rw [trimOws_eq_iff.mpr ⟨h,hbare⟩]
      simp [hne]
  · rintro rfl
    have htrim : trimOws value = trimOws value := rfl
    obtain ⟨hsurrounded,hbare⟩ := trimOws_eq_iff.mp htrim
    by_cases hnil : trimOws value = []
    · rw [hnil] at hsurrounded
      simpa [hnil] using Element.blank hsurrounded
    · simpa [hnil] using Element.text hsurrounded hbare hnil

/-- The elements of a field value as they are computed. -/
def listElements (value : Bytes) : List Bytes := ((value.splitOn comma).map trimOws).filter (· ≠ [])

theorem listElements_last {value : Bytes} (h : comma ∉ value) :
    listElements value = [trimOws value].filter (· ≠ []) := by
  rw [listElements,List.splitOn_eq_singleton h]
  rfl

theorem listElements_more {value : Bytes} (h : comma ∉ value) (rest : Bytes) :
    listElements (value ++ comma :: rest) = [trimOws value].filter (· ≠ []) ++ listElements rest := by
  rw [listElements,List.splitOn_append_cons_self_of_not_mem h,List.map_cons,← List.singleton_append,
    List.filter_append]
  rfl

theorem lists_listElements (value : Bytes) : Lists value (listElements value) := by
  induction hn : value.length using Nat.strong_induction_on generalizing value with
  | h n ih =>
    by_cases hcomma : comma ∈ value
    · have hcut := eq_takeWhile_append hcomma
      have hfirst : comma ∉ value.takeWhile (· ≠ comma) := fun hm => by
        simpa using List.mem_takeWhile_imp hm
      have hlength := congrArg List.length hcut
      rw [List.length_append,List.length_cons] at hlength
      have hrest := ih _ (by omega) (value.dropWhile (· ≠ comma)).tail rfl
      rw [hcut,listElements_more hfirst]
      exact .more hfirst (element_iff.mpr rfl) hrest
    · rw [listElements_last hcomma]
      exact .last hcomma (element_iff.mpr rfl)

theorem lists_iff {value : Bytes} {texts : List Bytes} : Lists value texts ↔ listElements value = texts := by
  constructor
  · intro h
    induction h with
    | last hcomma h => exact (listElements_last hcomma).trans (element_iff.mp h)
    | more hcomma h _ ih => rw [listElements_more hcomma,element_iff.mp h,ih]
  · rintro rfl
    exact lists_listElements value

end Lists

section Lengths

/-- The value is decimal digits that denote the number, with blanks around them. -/
def LengthIs (value : Bytes) (n : ℕ) : Prop :=
  ∃ digits, Surrounded value digits ∧ Numeral 10 u64Values digits n

/-- The same with a plus sign in front of the digits. -/
def SignedLengthIs (value : Bytes) (n : ℕ) : Prop :=
  ∃ digits, Surrounded value (plus :: digits) ∧ Numeral 10 u64Values digits n

theorem isDigit_not_ows {radix : ℕ} {byte : UInt8} (h : isDigit radix byte = true) : isOws byte = false := by
  by_contra hows
  rw [Bool.not_eq_false,isOws,decide_eq_true_eq] at hows
  rcases hows with rfl | rfl
  · cases h
  · cases h

theorem lengthIs_iff {value : Bytes} {n : ℕ} : LengthIs value n ↔ Numeral 10 u64Values (trimOws value) n := by
  constructor
  · rintro ⟨digits,hvalue,hn⟩
    have hbare : Bare digits := .of_forall fun byte hm => isDigit_not_ows (hn.digits byte hm)
    rw [trimOws_eq_iff.mpr ⟨hvalue,hbare⟩]
    exact hn
  · intro h
    exact ⟨_,(trimOws_eq_iff.mp rfl).1,h⟩

theorem signedLengthIs_iff {value : Bytes} {n : ℕ} :
    SignedLengthIs value n ↔ Signed 10 u64Values (trimOws value) n := by
  constructor
  · rintro ⟨digits,hvalue,hn⟩
    have hbare : Bare (plus :: digits) := .of_forall (List.forall_mem_cons.mpr
      ⟨rfl,fun byte hm => isDigit_not_ows (hn.digits byte hm)⟩)
    exact ⟨digits,trimOws_eq_iff.mpr ⟨hvalue,hbare⟩,hn⟩
  · rintro ⟨digits,htrim,hn⟩
    exact ⟨digits,(trimOws_eq_iff.mp htrim).1,hn⟩

theorem SignedLengthIs.not_lengthIs {value : Bytes} {m n : ℕ} (h : SignedLengthIs value m) :
    ¬ LengthIs value n := by
  intro hlength
  obtain ⟨digits,htrim,_⟩ := signedLengthIs_iff.mp h
  have hn := lengthIs_iff.mp hlength
  rw [htrim] at hn
  exact hn.not_plus rfl

end Lengths
end H12Tiny.Sync
