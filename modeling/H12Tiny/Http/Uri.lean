import H12Tiny.Http.Types
import H12Tiny.Sync.Bytes

/-! # Uris of the `http` crate

A `Uri` by its parts. What the crate's parser lets through is an assumption about it, which
the values carry: no white space and no control byte; no path behind an authority without a
scheme, and no scheme without an authority; and a host that is a name or an address in
brackets. A port is the text behind the colon, which is a number only for `port`.
-/
namespace H12Tiny
open Sync (Bytes u16Values)

inductive Scheme
  | http
  | https
  | other (text : Bytes)
  deriving DecidableEq

def Scheme.asBytes : Scheme → Bytes
  | http => [104,116,116,112]
  | https => [104,116,116,112,115]
  | other text => text

/-- The scheme `wss`. -/
def wss : Scheme := .other [119,115,115]

/-- Neither white space nor a control byte. -/
def isUriByte (byte : UInt8) : Bool := 32 < byte ∧ byte ≠ 127

def authorityText (userinfo : Option Bytes) (host : Bytes) (port : Option Bytes) : Bytes :=
  userinfo.elim [] (fun userinfo => userinfo ++ [64]) ++ host ++ port.elim [] (fun port => 58 :: port)

def isAuthorityByte (byte : UInt8) : Bool := 32 < byte ∧ byte < 127

/-- A host is a name without colon or an address in brackets. -/
def isHost (host : Bytes) : Bool :=
  64 ∉ host ∧ ((58 ∉ host ∧ 91 ∉ host ∧ 93 ∉ host) ∨
    (host.head? = some 91 ∧ host.getLast? = some 93 ∧ 91 ∉ host.tail ∧ 93 ∉ host.dropLast))

def isPortText (port : Bytes) : Bool := 64 ∉ port ∧ 58 ∉ port ∧ 91 ∉ port ∧ 93 ∉ port

/-- An authority as the `http` crate lets one through. The form of its host and port is
assumed of the crate, like its bytes. -/
structure Authority where
  userinfo : Option Bytes
  host : Bytes
  port : Option Bytes
  present : authorityText userinfo host port ≠ []
  ascii : (authorityText userinfo host port).all isAuthorityByte = true
  form : isHost host = true ∧ port.all isPortText = true
  deriving DecidableEq

namespace Authority

def asBytes (self : Authority) : Bytes := authorityText self.userinfo self.host self.port

def portU16 (self : Authority) : Option ℕ := self.port.bind (fromStrRadix 10 u16Values)

theorem byte_ascii (self : Authority) : ∀ byte ∈ self.asBytes, 32 < byte ∧ byte < 127 := fun byte hbyte =>
  of_decide_eq_true (List.all_eq_true.mp self.ascii byte hbyte)

theorem host_ascii (self : Authority) : ∀ byte ∈ self.host, 32 < byte ∧ byte < 127 := fun byte hbyte =>
  self.byte_ascii byte (List.mem_append_left _ (List.mem_append_right _ hbyte))

end Authority

structure PathAndQuery where
  path : Bytes
  query : Option Bytes
  plain : path.all isUriByte = true ∧ query.all (fun query => query.all isUriByte) = true
  form : 63 ∉ path
  deriving DecidableEq

namespace PathAndQuery

def empty : PathAndQuery := ⟨[],none,⟨rfl,rfl⟩,List.not_mem_nil⟩

def slash : PathAndQuery := ⟨[47],none,⟨rfl,rfl⟩,by decide⟩

def queryText (self : PathAndQuery) : Bytes := self.query.elim [] fun query => 63 :: query

def data (self : PathAndQuery) : Bytes := self.path ++ self.queryText

def asStr (self : PathAndQuery) : Bytes := if self.data = [] then [47] else self.data

def pathText (self : PathAndQuery) : Bytes := if self.path = [] then [47] else self.path

theorem text_ne_nil (self : PathAndQuery) : self.pathText ++ self.queryText ≠ [] := by
  unfold pathText
  split
  next => exact List.cons_ne_nil _ _
  next h => exact fun hnil => h (List.append_eq_nil_iff.mp hnil).1

theorem text_plain (self : PathAndQuery) : ∀ byte ∈ self.pathText ++ self.queryText, isUriByte byte := by
  intro byte hbyte
  rcases List.mem_append.mp hbyte with hbyte | hbyte
  · unfold pathText at hbyte
    split at hbyte
    next => exact List.mem_singleton.mp hbyte ▸ by decide
    next => exact List.all_eq_true.mp self.plain.1 byte hbyte
  · unfold queryText at hbyte
    cases hquery : self.query with
    | none =>
      rw [hquery] at hbyte
      cases hbyte
    | some query =>
      rw [hquery] at hbyte
      rcases List.mem_cons.mp hbyte with rfl | hbyte
      · decide
      · have hplain := self.plain.2
        rw [hquery] at hplain
        exact List.all_eq_true.mp hplain byte hbyte

theorem queryText_ne_slash (self : PathAndQuery) : self.queryText ≠ [47] := by
  unfold queryText
  cases self.query with
  | none => exact (List.cons_ne_nil _ _).symm
  | some query => exact fun h => absurd (List.cons.inj h).1 (by decide)

/-- Only the root path without a query is shown as `/`. -/
theorem text_of_asStr {self : PathAndQuery} (h : self.asStr = [47]) :
    self.pathText ++ self.queryText = [47] := by
  unfold asStr at h
  split at h
  next hnil =>
    obtain ⟨hpath,hquery⟩ := List.append_eq_nil_iff.mp hnil
    rw [pathText,if_pos hpath,hquery]
    rfl
  next =>
    rcases List.append_eq_singleton_iff.mp h with ⟨-,hquery⟩ | ⟨hpath,hquery⟩
    · exact absurd hquery self.queryText_ne_slash
    · rw [pathText,hpath,hquery]
      rfl

end PathAndQuery

structure Uri where
  scheme : Option Scheme
  authority : Option Authority
  parts : PathAndQuery
  absolute : scheme.isSome → authority.isSome
  relative : scheme = none → authority.isSome → parts = .empty
  deriving DecidableEq

namespace Uri

def pathAndQuery (self : Uri) : Option PathAndQuery :=
  if self.scheme.isSome ∨ self.authority = none then some self.parts else none

def hasPath (self : Uri) : Bool := self.parts.data ≠ [] ∨ self.scheme.isSome

def host (self : Uri) : Option Bytes := self.authority.map Authority.host

def port (self : Uri) : Option ℕ := self.authority.bind Authority.portU16

theorem not_isSome_none {α : Type} {P : Prop} (h : (none : Option α).isSome) : P :=
  (Bool.false_ne_true h).elim

def fromParts (scheme : Option Scheme) (authority : Option Authority) (path : Option PathAndQuery) : Option Uri :=
  match scheme,authority,path with
  | some scheme,some authority,some path =>
    some ⟨some scheme,some authority,path,fun _ => rfl,fun h => absurd h (Option.some_ne_none scheme)⟩
  | none,some authority,none => some ⟨none,some authority,.empty,not_isSome_none,fun _ _ => rfl⟩
  | none,none,path => some ⟨none,none,path.getD .empty,not_isSome_none,fun _ => not_isSome_none⟩
  | _,_,_ => none

/-- The target `/`. -/
def default : Uri := ⟨none,none,.slash,not_isSome_none,fun _ => not_isSome_none⟩

def display (self : Uri) : Bytes :=
  self.scheme.elim [] (fun scheme => scheme.asBytes ++ [58,47,47]) ++
    self.authority.elim [] Authority.asBytes ++
    (if self.hasPath then self.parts.pathText else []) ++ self.parts.queryText

def sampleAuthority : Authority := ⟨none,[97],none,by decide,by decide,by decide⟩

/-- The URI `http://a/`. -/
def sample : Uri :=
  ⟨some .http,some sampleAuthority,.slash,fun _ => rfl,fun h => absurd h (Option.some_ne_none _)⟩

end Uri

end H12Tiny
