import H12Tiny.Normalize.Dialling

/-! # Origins as pool keys

The client's pool is keyed by origins, and the equality of an origin is the one of its
scheme and of the text of its authority, both without regard to case. An authority can be
taken apart into its userinfo, its host and its port in one way only, so two keys are equal
when all three are, as they are written.
-/
namespace H12Tiny.Normalize
open Sync (Bytes toAsciiLowercase eqIgnoreAsciiCase)
open Dialling (HostForm splitHost splitHost_append hostForm_of_isHost bareHost defaultPort)

def sameScheme : Scheme → Scheme → Bool
  | .http,.http => true
  | .https,.https => true
  | .other text,.other text' => eqIgnoreAsciiCase text text'
  | _,_ => false

/-- The derived equality of origins, which are the keys of the pool. -/
def Origin.same (self other : Origin) : Bool :=
  sameScheme self.scheme other.scheme && eqIgnoreAsciiCase self.authority.asBytes other.authority.asBytes

def lower (text : Bytes) : Bytes := text.map toAsciiLowercase

structure OriginKey where
  scheme : Scheme
  authority : Bytes
  deriving DecidableEq

def lowerScheme : Scheme → Scheme
  | .other text => .other (lower text)
  | scheme => scheme

def Origin.key (self : Origin) : OriginKey := ⟨lowerScheme self.scheme,lower self.authority.asBytes⟩

theorem lowerScheme_eq_iff (scheme scheme' : Scheme) :
    lowerScheme scheme = lowerScheme scheme' ↔ sameScheme scheme scheme' = true := by
  cases scheme <;> cases scheme' <;> simp [lowerScheme,sameScheme,eqIgnoreAsciiCase,lower]

/-- Origins are one key of the pool when they are equal without regard to case. -/
theorem Origin.key_eq_iff (self other : Origin) : self.key = other.key ↔ self.same other = true := by
  rw [key,key,OriginKey.mk.injEq,lowerScheme_eq_iff,same,Bool.and_eq_true,eqIgnoreAsciiCase,decide_eq_true_iff]
  exact Iff.rfl

/-! ## Lower case -/

theorem toAsciiLowercase_eq_iff {byte other : UInt8} (h : other < 97 ∨ 122 < other)
    (hupper : ¬(65 ≤ other ∧ other ≤ 90)) : toAsciiLowercase byte = other ↔ byte = other := by
  unfold toAsciiLowercase
  split
  next hbyte =>
    constructor
    · rintro rfl
      simp only [UInt8.lt_iff_toNat_lt,UInt8.le_iff_toNat_le,UInt8.toNat_add] at h hbyte
      simp at h hbyte
      omega
    · rintro rfl
      exact absurd hbyte hupper
  next => exact Iff.rfl

theorem mem_lower {byte : UInt8} (h : byte < 97 ∨ 122 < byte) (hupper : ¬(65 ≤ byte ∧ byte ≤ 90)) {text : Bytes} :
    byte ∈ lower text ↔ byte ∈ text := by
  simp only [lower,List.mem_map,toAsciiLowercase_eq_iff h hupper,exists_eq_right]

theorem digitValue_lower (byte : UInt8) : digitValue (toAsciiLowercase byte) = digitValue byte := by
  unfold toAsciiLowercase
  split
  next hbyte =>
    have hrange : 65 ≤ byte.toNat ∧ byte.toNat ≤ 90 := by simpa [UInt8.le_iff_toNat_le] using hbyte
    have hnat : (byte + 32).toNat = byte.toNat + 32 := by
      rw [UInt8.toNat_add]
      exact Nat.mod_eq_of_lt (Nat.lt_of_le_of_lt (Nat.add_le_add_right hrange.2 32) (by decide))
    simp only [digitValue,UInt8.le_iff_toNat_le,hnat,UInt8.toNat_ofNat]
    grind
  next => rfl

theorem fromStrRadix_lower (radix bound : ℕ) (text : Bytes) :
    fromStrRadix radix bound (lower text) = fromStrRadix radix bound text := by
  have hpush : (fun value byte => pushDigit radix bound value (toAsciiLowercase byte)) = pushDigit radix bound := by
    funext value byte
    rw [pushDigit,digitValue_lower,pushDigit]
  have hdigits : ∀ digits : Bytes,
      (if lower digits = [] then none else (lower digits).foldlM (pushDigit radix bound) 0) =
        if digits = [] then none else digits.foldlM (pushDigit radix bound) 0 := by
    intro digits
    simp only [lower,List.map_eq_nil_iff,List.foldlM_map,hpush]
  cases text with
  | nil => rfl
  | cons byte text =>
    have hplus : toAsciiLowercase byte = plus ↔ byte = plus :=
      toAsciiLowercase_eq_iff (.inl (by decide)) (by decide)
    unfold fromStrRadix
    by_cases h : byte = plus
    · subst h
      exact hdigits text
    · have hhead : (byte :: text).head? ≠ some plus := fun e => h (Option.some.inj e)
      have hlower : (lower (byte :: text)).head? ≠ some plus := fun e => h (hplus.mp (Option.some.inj e))
      rw [if_neg hhead,if_neg hlower]
      exact hdigits (byte :: text)

theorem authorityText_lower (userinfo : Option Bytes) (host : Bytes) (port : Option Bytes) :
    lower (authorityText userinfo host port) =
      authorityText (userinfo.map lower) (lower host) (port.map lower) := by
  have hat : toAsciiLowercase 64 = 64 := rfl
  have hcolon : toAsciiLowercase 58 = 58 := rfl
  cases userinfo <;> cases port <;> simp [authorityText,lower,hat,hcolon]

theorem hostForm_lower {host : Bytes} (h : HostForm host) : HostForm (lower host) := by
  cases h with
  | name hcolon hbracket =>
    refine .name ?_ ?_
    · rwa [mem_lower (.inl (by decide)) (by decide)]
    · rwa [mem_lower (.inl (by decide)) (by decide)]
  | @literal inner hinner =>
    have hlower : lower (91 :: inner ++ [93]) = 91 :: lower inner ++ [93] := by
      simp only [lower,List.map_append,List.map_cons,List.map_nil]
      rfl
    rw [hlower]
    refine .literal ?_
    rwa [mem_lower (.inl (by decide)) (by decide)]

/-! ## Taking an authority apart -/

def userinfoText (userinfo : Option Bytes) : Bytes := userinfo.elim [] fun userinfo => userinfo ++ [64]

def portSuffix (port : Option Bytes) : Bytes := port.elim [] fun port => 58 :: port

theorem authorityText_eq (userinfo : Option Bytes) (host : Bytes) (port : Option Bytes) :
    authorityText userinfo host port = userinfoText userinfo ++ (host ++ portSuffix port) :=
  List.append_assoc _ _ _

theorem userinfoText_inj {userinfo userinfo' : Option Bytes} (h : userinfoText userinfo = userinfoText userinfo') :
    userinfo = userinfo' := by
  cases userinfo with
  | none =>
    cases userinfo' with
    | none => rfl
    | some userinfo' => exact absurd h.symm (List.append_ne_nil_of_right_ne_nil _ (List.cons_ne_nil _ _))
  | some userinfo =>
    cases userinfo' with
    | none => exact absurd h (List.append_ne_nil_of_right_ne_nil _ (List.cons_ne_nil _ _))
    | some userinfo' => exact congrArg some (List.append_cancel_right h)

theorem portSuffix_inj {port port' : Option Bytes} (h : portSuffix port = portSuffix port') : port = port' := by
  cases port with
  | none =>
    cases port' with
    | none => rfl
    | some port' => cases h
  | some port =>
    cases port' with
    | none => cases h
    | some port' => exact congrArg some (List.cons.inj h).2

theorem portSuffix_head (port : Option Bytes) : portSuffix port = [] ∨ (portSuffix port).head? = some 58 := by
  cases port with
  | none => exact .inl rfl
  | some port => exact .inr rfl

/-- The userinfo ends at the last at sign, so one cannot be longer than another. -/
theorem userinfoText_maximal {userinfo userinfo' : Option Bytes} {more : Bytes}
    (h : userinfoText userinfo' = userinfoText userinfo ++ more) (hmore : 64 ∉ more) : more = [] := by
  rcases List.eq_nil_or_concat' more with hnil | ⟨before,last,rfl⟩
  · exact hnil
  · have hlast : (userinfoText userinfo').getLast? = some last := by
      rw [h,← List.append_assoc,List.getLast?_concat]
    cases userinfo' with
    | none => cases hlast
    | some userinfo' =>
      rw [userinfoText,Option.elim_some,List.getLast?_concat] at hlast
      cases hlast
      exact absurd (List.mem_append_right _ List.mem_cons_self) hmore

/-- The at sign and the colon of an authority can be found in its text. -/
theorem authorityText_inj {userinfo userinfo' port port' : Option Bytes} {host host' : Bytes}
    (hform : HostForm host) (hform' : HostForm host') (hat : 64 ∉ host ++ portSuffix port)
    (hat' : 64 ∉ host' ++ portSuffix port')
    (h : authorityText userinfo host port = authorityText userinfo' host' port') :
    userinfo = userinfo' ∧ host = host' ∧ port = port' := by
  rw [authorityText_eq,authorityText_eq] at h
  obtain ⟨huserinfo,hrest⟩ : userinfoText userinfo = userinfoText userinfo' ∧
      host ++ portSuffix port = host' ++ portSuffix port' := by
    rcases List.append_eq_append_iff.mp h with ⟨more,hlong,hshort⟩ | ⟨more,hlong,hshort⟩
    · rw [hshort] at hat
      have hnil := userinfoText_maximal hlong fun hmem => hat (List.mem_append_left _ hmem)
      subst hnil
      exact ⟨by rw [hlong,List.append_nil],hshort⟩
    · rw [hshort] at hat'
      have hnil := userinfoText_maximal hlong fun hmem => hat' (List.mem_append_left _ hmem)
      subst hnil
      exact ⟨by rw [hlong,List.append_nil],hshort.symm⟩
  have hsplit := congrArg splitHost hrest
  rw [splitHost_append hform (portSuffix_head port),splitHost_append hform' (portSuffix_head port')] at hsplit
  have hport := (Prod.mk.inj hsplit).2
  rw [hport] at hrest
  exact ⟨userinfoText_inj huserinfo,List.append_cancel_right hrest,portSuffix_inj hport⟩

theorem at_not_mem (authority : Authority) : 64 ∉ authority.host ++ portSuffix authority.port := by
  obtain ⟨hhost,hport⟩ := authority.form
  intro hmem
  rcases List.mem_append.mp hmem with hmem | hmem
  · exact (of_decide_eq_true hhost).1 hmem
  · cases hsome : authority.port with
    | none =>
      rw [hsome] at hmem
      cases hmem
    | some port =>
      rw [hsome] at hmem hport
      rcases List.mem_cons.mp hmem with heq | hmem
      · exact absurd heq (by decide)
      · exact (of_decide_eq_true hport).1 hmem

theorem lower_portSuffix (host : Bytes) (port : Option Bytes) :
    lower host ++ portSuffix (port.map lower) = lower (host ++ portSuffix port) := by
  have hcolon : toAsciiLowercase 58 = 58 := rfl
  cases port <;> simp [portSuffix,lower,hcolon]

theorem authority_same_iff (authority authority' : Authority) :
    eqIgnoreAsciiCase authority.asBytes authority'.asBytes = true ↔
      authority.userinfo.map lower = authority'.userinfo.map lower ∧
      lower authority.host = lower authority'.host ∧ authority.port.map lower = authority'.port.map lower := by
  have hat : ∀ authority : Authority, 64 ∉ lower authority.host ++ portSuffix (authority.port.map lower) := by
    intro authority
    rw [lower_portSuffix,mem_lower (.inl (by decide)) (by decide)]
    exact at_not_mem authority
  have hform : ∀ authority : Authority, HostForm (lower authority.host) := fun authority =>
    hostForm_lower (hostForm_of_isHost authority.form.1)
  rw [eqIgnoreAsciiCase,decide_eq_true_iff]
  change lower (authorityText _ _ _) = lower (authorityText _ _ _) ↔ _
  rw [authorityText_lower,authorityText_lower]
  constructor
  · intro h
    exact authorityText_inj (hform _) (hform _) (hat _) (hat _) h
  · rintro ⟨huserinfo,hhost,hport⟩
    rw [huserinfo,hhost,hport]

/-! ## Endpoints -/

def effectivePort (uri : Uri) : Option ℕ := uri.port.or (uri.scheme.bind defaultPort)

/-- Requests for these URIs go to the same place. -/
structure SameEndpoint (uri uri' : Uri) : Prop where
  scheme : uri.scheme = uri'.scheme
  host : uri.host.map lower = uri'.host.map lower
  port : effectivePort uri = effectivePort uri'

/-- Userinfo and port are written alike, up to case. -/
structure SameSpelling (uri uri' : Uri) : Prop where
  userinfo : (uri.authority.bind Authority.userinfo).map lower = (uri'.authority.bind Authority.userinfo).map lower
  port : (uri.authority.bind Authority.port).map lower = (uri'.authority.bind Authority.port).map lower

theorem portU16_congr {authority authority' : Authority}
    (h : authority.port.map lower = authority'.port.map lower) : authority.portU16 = authority'.portU16 := by
  have hlower : ∀ authority : Authority, authority.portU16 =
      (authority.port.map lower).bind (fromStrRadix 10 Sync.u16Values) := by
    intro authority
    rw [Authority.portU16,Option.bind_map]
    congr 1
    funext text
    exact (fromStrRadix_lower 10 Sync.u16Values text).symm
  rw [hlower,hlower,h]

theorem extractOrigin_parts {uri left : Uri} {isConnect : Bool} {origin : Origin}
    (h : extractOrigin uri isConnect = some (.ok origin,left))
    (hscheme : uri.scheme = some .http ∨ uri.scheme = some .https) :
    uri.scheme = some origin.scheme ∧ uri.authority = some origin.authority ∧
      (origin.scheme = .http ∨ origin.scheme = .https) := by
  have hleft : left = uri := by
    unfold extractOrigin at h
    split at h
    next => exact (Prod.mk.inj (Option.some.inj h)).2.symm
    next hnone _ => rcases hscheme with hsome | hsome <;> cases hnone.symm.trans hsome
    next => cases h
  obtain ⟨hs,ha⟩ := extractOrigin_ok h
  rw [hleft] at hs ha
  refine ⟨hs,ha,?_⟩
  rcases hscheme with hsome | hsome
  · exact .inl (Option.some.inj (hs.symm.trans hsome))
  · exact .inr (Option.some.inj (hs.symm.trans hsome))

theorem sameScheme_iff {scheme scheme' : Scheme} (h : scheme = .http ∨ scheme = .https)
    (h' : scheme' = .http ∨ scheme' = .https) : sameScheme scheme scheme' = true ↔ scheme = scheme' := by
  rcases h with rfl | rfl <;> rcases h' with rfl | rfl <;> decide

section Keys
variable {uri uri' left left' : Uri} {isConnect isConnect' : Bool} {origin origin' : Origin}
  (h : extractOrigin uri isConnect = some (.ok origin,left))
  (h' : extractOrigin uri' isConnect' = some (.ok origin',left'))
  (hscheme : uri.scheme = some .http ∨ uri.scheme = some .https)
  (hscheme' : uri'.scheme = some .http ∨ uri'.scheme = some .https)
include h h' hscheme hscheme'

theorem same_iff_spelling : origin.same origin' = true ↔ SameEndpoint uri uri' ∧ SameSpelling uri uri' := by
  obtain ⟨hs,ha,hown⟩ := extractOrigin_parts h hscheme
  obtain ⟨hs',ha',hown'⟩ := extractOrigin_parts h' hscheme'
  rw [Origin.same,Bool.and_eq_true,sameScheme_iff hown hown',authority_same_iff]
  constructor
  · rintro ⟨heq,huserinfo,hhost,hport⟩
    have hschemes : uri.scheme = uri'.scheme := by rw [hs,hs',heq]
    refine ⟨⟨hschemes,?_,?_⟩,⟨?_,?_⟩⟩
    · rw [Uri.host,Uri.host,ha,ha']
      exact congrArg some hhost
    · rw [effectivePort,effectivePort,Uri.port,Uri.port,ha,ha',hschemes,Option.bind_some,Option.bind_some,
        portU16_congr hport]
    · rwa [ha,ha']
    · rwa [ha,ha']
  · rintro ⟨⟨hschemes,hhost,-⟩,⟨huserinfo,hport⟩⟩
    rw [hs,hs'] at hschemes
    rw [Uri.host,Uri.host,ha,ha'] at hhost
    rw [ha,ha'] at huserinfo hport
    exact ⟨Option.some.inj hschemes,huserinfo,Option.some.inj hhost,hport⟩

/-- Origins are equal exactly when their endpoints are, for the URIs that do not write one
endpoint in two ways. -/
theorem origin_canonical_iff :
    (origin.same origin' = true ↔ SameEndpoint uri uri') ↔ (SameEndpoint uri uri' → SameSpelling uri uri') := by
  rw [same_iff_spelling h h' hscheme hscheme']
  exact and_iff_left_iff_imp

end Keys

/-- The authority `A`, which differs from `a` in case. -/
def upperAuthority : Authority := ⟨none,[65],none,by decide,by decide,by decide⟩

/-- The URI `http://A/`. -/
def upperUri : Uri :=
  ⟨some .http,some upperAuthority,.slash,fun _ => rfl,fun h => absurd h (Option.some_ne_none _)⟩

theorem origin_canonical_upper :
    Origin.same ⟨.http,Uri.sampleAuthority⟩ ⟨.http,upperAuthority⟩ = true ∧ SameEndpoint Uri.sample upperUri := by
  have hkeys := @origin_canonical_iff Uri.sample upperUri _ _ false false _ _ rfl rfl (.inl rfl) (.inl rfl)
  have hendpoint : SameEndpoint Uri.sample upperUri := ⟨rfl,rfl,rfl⟩
  exact ⟨(hkeys.mpr fun _ => ⟨rfl,rfl⟩).mpr hendpoint,hendpoint⟩

/-- The authority `a:80`. -/
def explicitAuthority : Authority := ⟨none,[97],some [56,48],by decide,by decide,by decide⟩

/-- The URI `http://a:80/`. -/
def explicitUri : Uri :=
  ⟨some .http,some explicitAuthority,.slash,fun _ => rfl,fun h => absurd h (Option.some_ne_none _)⟩

/-- Of `http://a/` and `http://a:80/`, which go to the same place, the origins are two keys. -/
theorem origin_split_by_default_port : ∃ origin origin',
    extractOrigin Uri.sample false = some (.ok origin,Uri.sample) ∧
      extractOrigin explicitUri false = some (.ok origin',explicitUri) ∧
      SameEndpoint Uri.sample explicitUri ∧ origin.same origin' = false :=
  ⟨_,_,rfl,rfl,⟨rfl,rfl,rfl⟩,rfl⟩

end H12Tiny.Normalize
