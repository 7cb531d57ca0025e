import H12Tiny.Client.Connector
import H12Tiny.Client.Provenance
import H12Tiny.Util.Collect

/-! # The builder of the client

The calls of `Builder` that reach the protocol policy, the connector or the pool, in any
number and order, and the client they build. What the builder hands on to Hyper and the log
of debug events are left out. `http1_only` narrows the ALPN offers of the connector that is
set, and nothing widens them again but another connector.
-/
namespace H12Tiny.Connect
open Sync (Bytes)
open Client (ConnectionProtocol Permits poolClient)
open Dialling (Attempt)
open Pool (Protocol PoolClient)
open Plan (Fits Follows)

structure ClientConfig where
  retryCanceledRequests : Bool
  setHost : Bool
  protocol : Protocol

structure Builder where
  config : ClientConfig
  connector : Connector
  poolConfig : Pool.Config
  poolTimer : Bool

structure BuiltClient where
  config : ClientConfig
  connector : Connector
  poolConfig : Pool.Config
  poolTimer : Bool

namespace Builder

def new : Builder := ⟨⟨true,true,.auto⟩,.new,⟨some 90000000000,Util.usizeMax,Util.usizeMax⟩,true⟩

variable (self : Builder)

def setConnector (connector : Connector) : Builder :=
  { self with connector := if self.config.protocol = .http1 then connector.forceHttp1 else connector }

def poolIdleTimeout (timeout : Option ℕ) : Builder :=
  { self with poolConfig := { self.poolConfig with idleTimeout := timeout } }

def poolMaxIdlePerHost (maxIdle : ℕ) : Builder :=
  { self with poolConfig := { self.poolConfig with maxIdlePerHost := maxIdle } }

def poolMaxConnectionsPerHost (maxConnections : ℕ) : Builder :=
  { self with poolConfig := { self.poolConfig with
      maxH1ConnectionsPerHost := if maxConnections = 0 then Util.usizeMax else maxConnections } }

def setPoolTimer : Builder := { self with poolTimer := true }

def setHost (enabled : Bool) : Builder := { self with config := { self.config with setHost := enabled } }

def retryCanceledRequests (enabled : Bool) : Builder :=
  { self with config := { self.config with retryCanceledRequests := enabled } }

def http1Only : Builder :=
  { self with config := { self.config with protocol := .http1 }, connector := self.connector.forceHttp1 }

def http2Only (enabled : Bool) : Builder :=
  { self with config := { self.config with protocol := if enabled then .http2 else .auto } }

def build : BuiltClient where
  config := self.config
  connector := if self.config.protocol = .http1 then self.connector.forceHttp1 else self.connector
  poolConfig := self.poolConfig
  poolTimer := self.poolTimer

end Builder

namespace BuiltClient
variable {S D : Type}

def start (self : BuiltClient) (K : Type) : Option (Client.State K) :=
  Client.State.new self.poolConfig self.config.protocol self.config.retryCanceledRequests self.poolTimer

def connect (self : BuiltClient) (network : Network S D) (tls : Bool) (uri : Uri) (elapsed : Bool) :
    Establish D (Connected S) :=
  self.connector.connect network tls uri (self.config.protocol = .http2) elapsed

end BuiltClient

inductive Setting
  | connector (connector : Connector)
  | poolIdleTimeout (timeout : Option ℕ)
  | poolMaxIdlePerHost (maxIdle : ℕ)
  | poolMaxConnectionsPerHost (maxConnections : ℕ)
  | poolTimer
  | setHost (enabled : Bool)
  | retryCanceledRequests (enabled : Bool)
  | http1Only
  | http2Only (enabled : Bool)

def Builder.set (self : Builder) : Setting → Builder
  | .connector connector => self.setConnector connector
  | .poolIdleTimeout timeout => self.poolIdleTimeout timeout
  | .poolMaxIdlePerHost maxIdle => self.poolMaxIdlePerHost maxIdle
  | .poolMaxConnectionsPerHost maxConnections => self.poolMaxConnectionsPerHost maxConnections
  | .poolTimer => self.setPoolTimer
  | .setHost enabled => self.setHost enabled
  | .retryCanceledRequests enabled => self.retryCanceledRequests enabled
  | .http1Only => self.http1Only
  | .http2Only enabled => self.http2Only enabled

def Builder.setAll (self : Builder) (settings : List Setting) : Builder := settings.foldl Builder.set self

def built (settings : List Setting) : BuiltClient := (Builder.new.setAll settings).build

namespace Setting

def connector? : Setting → Option Connector
  | connector c => some c
  | _ => none

def policy? : Setting → Option Protocol
  | http1Only => some .http1
  | http2Only enabled => some (if enabled then .http2 else .auto)
  | _ => none

end Setting

/-- The policy after these calls is the one that the last of them sets. -/
def policy (settings : List Setting) : Protocol := (settings.filterMap Setting.policy?).getLast?.getD .auto

/-- At some point of the later calls the policy was HTTP/1 only. -/
def Pinned (before after : List Setting) : Prop := ∃ made, made <+: after ∧ policy (before ++ made) = .http1

namespace Builder
variable (self : Builder)

theorem setAll_append (before after : List Setting) :
    self.setAll (before ++ after) = (self.setAll before).setAll after :=
  List.foldl_append

theorem set_protocol (setting : Setting) :
    (self.set setting).config.protocol = setting.policy?.getD self.config.protocol := by
  cases setting <;> rfl

theorem policy_append (before : List Setting) (setting : Setting) :
    policy (before ++ [setting]) = setting.policy?.getD (policy before) := by
  unfold policy
  rw [List.filterMap_append]
  cases h : setting.policy? with
  | none => simp [h]
  | some protocol => simp [h]

theorem setAll_protocol (settings : List Setting) : (new.setAll settings).config.protocol = policy settings := by
  induction settings using List.reverseRecOn with
  | nil => rfl
  | append_singleton settings setting ih =>
    rw [setAll_append,policy_append,← ih]
    exact set_protocol _ setting

/-- Without another connector a call leaves the connector alone or pins its offers, and it
pins them when it leaves the policy at HTTP/1 only for the first time. -/
theorem set_connector {setting : Setting} (h : setting.connector? = none) :
    (self.set setting).connector =
      if setting.policy? = some .http1 then self.connector.forceHttp1 else self.connector := by
  cases setting with
  | connector c => cases h
  | http2Only enabled => cases enabled <;> rfl
  | _ => rfl

theorem forceHttp1_forceHttp1 (c : Connector) : c.forceHttp1.forceHttp1 = c.forceHttp1 := rfl

theorem pinned_append {before after : List Setting} {setting : Setting} :
    Pinned before (after ++ [setting]) ↔
      Pinned before after ∨ policy (before ++ after ++ [setting]) = .http1 := by
  constructor
  · rintro ⟨made,hmade,hpolicy⟩
    rcases List.prefix_concat_iff.mp hmade with rfl | hmade
    · exact .inr (by rwa [List.append_assoc])
    · exact .inl ⟨made,hmade,hpolicy⟩
  · rintro (⟨made,hmade,hpolicy⟩ | hpolicy)
    · exact ⟨made,hmade.trans (List.prefix_append _ _),hpolicy⟩
    · exact ⟨_,List.prefix_refl _,by rwa [← List.append_assoc]⟩

/-- The connector since it was set, with the offers pinned from the first moment on at
which the policy was HTTP/1 only. -/
theorem setAll_connector {before after : List Setting} {c : Connector}
    (hself : self.config.protocol = policy before)
    (hconnector : self.connector = if policy before = .http1 then c.forceHttp1 else c)
    (hafter : ∀ setting ∈ after, setting.connector? = none) :
    (self.setAll after).config.protocol = policy (before ++ after) ∧
      (Pinned before after → (self.setAll after).connector = c.forceHttp1) ∧
      (¬ Pinned before after → (self.setAll after).connector = c) := by
  induction after using List.reverseRecOn with
  | nil =>
    have hpinned : Pinned before [] ↔ policy before = .http1 := by
      constructor
      · rintro ⟨made,hmade,hpolicy⟩
        rwa [List.prefix_nil.mp hmade,List.append_nil] at hpolicy
      · exact fun h => ⟨[],List.nil_prefix,by rwa [List.append_nil]⟩
    rw [hpinned,List.append_nil]
    exact ⟨hself,fun h => hconnector.trans (if_pos h),fun h => hconnector.trans (if_neg h)⟩
  | append_singleton after setting ih =>
    obtain ⟨hprotocol,hpos,hneg⟩ := ih fun s hs => hafter s (List.mem_append_left _ hs)
    have hset := hafter setting (List.mem_append_right _ (List.mem_singleton.mpr rfl))
    rw [setAll_append,pinned_append,policy_append]
    change ((self.setAll after).set setting).config.protocol = _ ∧
      (_ → ((self.setAll after).set setting).connector = _) ∧ (_ → ((self.setAll after).set setting).connector = _)
    rw [set_protocol,set_connector _ hset,hprotocol,← List.append_assoc,policy_append]
    refine ⟨rfl,fun hpinned => ?_,fun hpinned => ?_⟩
    · by_cases hp : Pinned before after
      · rw [hpos hp]
        split
        · exact forceHttp1_forceHttp1 c
        · rfl
      · -- the policy was another one before this call
        have hnow := hpinned.resolve_left hp
        have hbefore : policy (before ++ after) ≠ .http1 := fun h => hp ⟨after,List.prefix_refl _,h⟩
        rw [hneg hp]
        cases hpolicy : setting.policy? with
        | none =>
          rw [hpolicy] at hnow
          exact absurd hnow hbefore
        | some protocol =>
          rw [hpolicy] at hnow
          cases hnow
          rfl
    · rw [hneg fun h => hpinned (.inl h)]
      refine if_neg fun h => hpinned (.inr ?_)
      rw [h]
      rfl

end Builder

section Negotiated
variable {D : Type} {offers : List Bytes} {requireH2 secure : Bool} {protocol : ConnectionProtocol}

theorem speaks_required (h : Speaks D offers true secure protocol) : protocol = .http2 := by
  unfold Speaks at h
  split at h
  · obtain ⟨alpnProtocol,_,hselect⟩ := h
    unfold selectProtocol at hselect
    rcases alpnProtocol with _ | selected
    · cases hselect
    · simp only [Bool.not_true,Bool.false_eq_true,and_false,if_false] at hselect
      split at hselect
      · cases hselect
        rfl
      · cases hselect
  · exact h

/-- With nothing but HTTP/1.1 on offer, an answer selects it, unless it is not wanted. -/
theorem selectProtocol_http11 {alpnProtocol : Option Bytes} (h : ∀ selected ∈ alpnProtocol, selected ∈ [http11]) :
    selectProtocol (D := D) false alpnProtocol = .ok .http1 ∧
      ∀ protocol, selectProtocol (D := D) true alpnProtocol ≠ .ok protocol := by
  cases alpnProtocol with
  | none => exact ⟨rfl,fun _ he => by cases he⟩
  | some selected =>
    cases List.mem_singleton.mp (h selected rfl)
    exact ⟨rfl,fun _ he => by cases he⟩

theorem speaks_pinned (h : Speaks D [http11] requireH2 true protocol) : requireH2 = false ∧ protocol = .http1 := by
  obtain ⟨alpnProtocol,hoffered,hselect⟩ := h
  obtain ⟨hfalse,htrue⟩ := selectProtocol_http11 (D := D) hoffered
  cases requireH2 with
  | true => exact absurd hselect (htrue protocol)
  | false =>
    cases hfalse.symm.trans hselect
    exact ⟨rfl,rfl⟩

theorem speaks_permits {policy : Protocol} (hpinned : policy = .http1 → offers = [http11])
    (h : Speaks D offers (policy = .http2) secure protocol) : Permits policy protocol := by
  cases policy with
  | auto => trivial
  | http1 =>
    rw [hpinned rfl] at h
    cases secure with
    | false => exact h
    | true => exact (speaks_pinned h).2
  | http2 => exact speaks_required h

theorem not_refuses_pinned {e : Error D} (h : Refuses [http11] false (.failed e)) : e.clientErrorKind ≠ .alpn := by
  intro hkind
  obtain ⟨alpnProtocol,hoffered,hselect⟩ := h hkind
  cases (selectProtocol_http11 hoffered).1.symm.trans hselect

end Negotiated

theorem built_pinned {settings : List Setting} (h : (built settings).config.protocol = .http1) :
    (built settings).connector.alpnProtocols = [http11] := by
  have hconnector : (built settings).connector = (Builder.new.setAll settings).connector.forceHttp1 := if_pos h
  rw [hconnector]
  rfl

/-- The connector was set between these calls, or it is the default one. -/
def Supplies (settings before after : List Setting) (c : Connector) : Prop :=
  (settings = before ++ .connector c :: after ∨ settings = after ∧ before = [] ∧ c = .new) ∧
    ∀ setting ∈ after, setting.connector? = none

theorem built_connector {settings before after : List Setting} {c : Connector}
    (h : Supplies settings before after c) :
    (Pinned before after → (built settings).connector = c.forceHttp1) ∧
      (¬ Pinned before after → (built settings).connector = c) := by
  obtain ⟨hsettings,hafter⟩ := h
  -- the builder just after the connector was set
  obtain ⟨b,hb,hprotocol,hconnector⟩ : ∃ b : Builder, Builder.new.setAll settings = b.setAll after ∧
      b.config.protocol = policy before ∧ b.connector = if policy before = .http1 then c.forceHttp1 else c := by
    rcases hsettings with rfl | ⟨rfl,rfl,rfl⟩
    · refine ⟨(Builder.new.setAll before).setConnector c,Builder.setAll_append _ _ _,Builder.setAll_protocol before,?_⟩
      rw [← Builder.setAll_protocol before]
      rfl
    · exact ⟨.new,rfl,rfl,rfl⟩
  obtain ⟨hlast,hpos,hneg⟩ := b.setAll_connector hprotocol hconnector hafter
  have hbuilt : (built settings).connector =
      if policy (before ++ after) = .http1 then (b.setAll after).connector.forceHttp1
      else (b.setAll after).connector := by
    rw [← hlast,← hb]
    rfl
  rw [hbuilt]
  constructor
  · intro hpinned
    rw [hpos hpinned,Builder.forceHttp1_forceHttp1,ite_self]
  · intro hpinned
    rw [hneg hpinned]
    exact if_neg fun hpolicy => hpinned ⟨after,List.prefix_refl _,hpolicy⟩

theorem built_policy (settings : List Setting) : (built settings).config.protocol = policy settings :=
  Builder.setAll_protocol settings

/-- The connection has a permitted protocol. With nothing but HTTP/1.1 on offer there is
no HTTP/2 over TLS, and then HTTP/2 was not required either. -/
def Conforms (client : BuiltClient) (secure : Bool) (protocol : ConnectionProtocol) : Prop :=
  Permits client.config.protocol protocol ∧
    (client.connector.alpnProtocols = [http11] → secure = true →
      protocol = .http1 ∧ client.config.protocol ≠ .http2)

section Built
variable {S D : Type} {settings : List Setting} {network : Network S D} {tls elapsed : Bool} {uri : Uri}

theorem built_follows {attempt : Attempt} (hnetwork : network.SelectsOffered)
    (hkind : (built settings).connector.kind ≠ .custom)
    (h : Dialling.connectWithoutTimeout (built settings).connector.kind tls uri
      ((built settings).config.protocol = .http2) = .ok attempt) :
    Follows id ((built settings).connector.plan network attempt)
      (fun connected => Conforms (built settings) (uri.scheme = some .https) connected.protocol)
      (fun _ stop => ∀ e, stop = .failed e → e.clientErrorKind = .alpn → (built settings).config.protocol ≠ .http1)
      ((built settings).connect network tls uri elapsed) := by
  refine (Connector.connect_follows hnetwork elapsed h).weaken (fun connected hdelivers => ?_) ?_
  · unfold Connector.Delivers at hdelivers
    rw [if_neg hkind] at hdelivers
    refine ⟨speaks_permits built_pinned hdelivers,fun hoffers hsecure => ?_⟩
    rw [hoffers,hsecure] at hdelivers
    obtain ⟨hrequire,hprotocol⟩ := speaks_pinned hdelivers
    exact ⟨hprotocol,of_decide_eq_false hrequire⟩
  · rintro made _ _ hrefuses e rfl hkind hhttp1
    rw [built_pinned hhttp1,hhttp1] at hrefuses
    exact not_refuses_pinned hrefuses hkind

theorem built_compatible {connected : Connected S} {calls : List Call} (hnetwork : network.SelectsOffered)
    (hdialer : network.DialsCompatibly) (hpolicy : (built settings).config.protocol = .http2)
    (h : (built settings).connect network tls uri elapsed [] = .ok connected calls) :
    connected.protocol = .http2 := by
  unfold BuiltClient.connect at h
  rw [decide_eq_true hpolicy] at h
  rcases haccepted : Dialling.connectWithoutTimeout (built settings).connector.kind tls uri true with error | attempt
  · rw [Connector.connect_rejected haccepted] at h
    cases h
  · have hfits := Connector.connect_follows hnetwork elapsed haccepted []
    rw [h] at hfits
    have hdelivers := hfits.2
    unfold Connector.Delivers at hdelivers
    split at hdelivers
    · exact hdialer _ _ hdelivers
    · exact speaks_required hdelivers

end Built

/-- Every connection that the requests of a run are given is one that the connector of the
client has established, each at its time, over a network that keeps what is promised. -/
def DialledBy (S D : Type) {K : Type} (client : BuiltClient) (tls : Bool) (actions : List (Client.Action K)) :
    Prop :=
  ∀ r selected, Client.Action.dialed r (.ok selected) ∈ actions →
    ∃ network : Network S D, network.SelectsOffered ∧ network.DialsCompatibly ∧
      ∃ uri elapsed connected calls, client.connect network tls uri elapsed [] = .ok connected calls ∧
        connected.protocol = selected

theorem DialledBy.contractKept {S D K : Type} {settings : List Setting} {tls : Bool}
    {actions : List (Client.Action K)} (h : DialledBy S D (built settings) tls actions) :
    Client.ContractKept (built settings).config.protocol actions := by
  intro a ha
  unfold Client.Compatible
  split
  next r selected =>
    intro hpolicy
    obtain ⟨network,hnetwork,hdialer,uri,elapsed,connected,calls,hconnect,rfl⟩ := h r selected ha
    exact built_compatible hnetwork hdialer hpolicy hconnect
  next => trivial

/-- Whatever the builder was told and in which order: the client has the policy that was
set last. Its connector is the last one it was given, or the default one, except that
nothing but HTTP/1.1 is on offer if at some moment since then the policy was HTTP/1 only.
Without a dialer that replaces the whole connector, every connection it establishes
conforms to that and a client for HTTP/1 only never fails over the protocol. And in every
run whose connections come from that connector all that the pool holds speaks a permitted
protocol. -/
theorem built_client_protocols (S D : Type) (settings : List Setting) (tls : Bool) :
    (built settings).config.protocol = policy settings ∧
    (∀ before after c, Supplies settings before after c →
      (Pinned before after → (built settings).connector = c.forceHttp1) ∧
      (¬ Pinned before after → (built settings).connector = c)) ∧
    (∀ (network : Network S D) uri elapsed attempt, network.SelectsOffered →
      (built settings).connector.kind ≠ .custom →
      Dialling.connectWithoutTimeout (built settings).connector.kind tls uri
        ((built settings).config.protocol = .http2) = .ok attempt →
      Fits id [] ((built settings).connector.plan network attempt)
        (fun connected => Conforms (built settings) (uri.scheme = some .https) connected.protocol)
        (fun _ stop => ∀ e, stop = .failed e → e.clientErrorKind = .alpn →
          (built settings).config.protocol ≠ .http1)
        ((built settings).connect network tls uri elapsed [])) ∧
    ∀ (K : Type) [DecidableEq K] (s₀ s : Client.State K) (actions : List (Client.Action K)),
      (built settings).start K = some s₀ → Trace Client.State.step s₀ actions s →
      DialledBy S D (built settings) tls actions → ∀ (key : K) (v : PoolClient), Pool.Holds s.world key v →
        ∃ selected n, v = poolClient selected n ∧ Permits (policy settings) selected := by
  refine ⟨built_policy settings,fun _ _ _ => built_connector,
    fun _ _ _ _ hnetwork hkind h => built_follows hnetwork hkind h [],?_⟩
  intro K _ s₀ s actions h₀ h hdialled key v hv
  obtain ⟨_,_,selected,n,_,he,hp,_⟩ := (Client.trace_provenance h₀ h).2.established hv
  rw [Client.trace_protocol h₀ h,built_policy] at hp
  refine ⟨selected,n,he,hp ?_⟩
  rw [← built_policy]
  exact hdialled.contractKept

/-- Calls that leave the policy at HTTP/2 only and the offers as they are. -/
def multiplexed : List Setting := [.poolMaxConnectionsPerHost 1,.http2Only true]

/-- The client negotiates HTTP/2 for `https://[::1]`, and two requests share the connection. -/
theorem built_client_protocols_multiplexed : ∃ connected calls s₀ s v,
    (built multiplexed).connector = .new ∧
    (built multiplexed).connect firstOffer true loopbackUri false [] = .ok connected calls ∧
    Conforms (built multiplexed) true connected.protocol ∧
    (built multiplexed).start ℕ = some s₀ ∧ Trace Client.State.step s₀ Client.multiplexing s ∧
    Pool.Holds s.world 3 v ∧ ∃ selected n, v = poolClient selected n ∧ Permits .http2 selected := by
  obtain ⟨_,hconnector,hconforms,hheld⟩ := built_client_protocols ℕ String multiplexed true
  have hpinned : ¬ Pinned [] multiplexed := by
    rintro ⟨made,hmade,hpolicy⟩
    have hcases : made = [] ∨ ∃ rest, made = .poolMaxConnectionsPerHost 1 :: rest ∧
        (rest = [] ∨ rest = [.http2Only true]) := by
      simpa [multiplexed,List.prefix_cons_iff] using hmade
    rcases hcases with rfl | ⟨_,rfl,rfl | rfl⟩ <;> cases hpolicy
  have hnew := (hconnector [] multiplexed .new ⟨.inr ⟨rfl,rfl,rfl⟩,by simp [multiplexed,Setting.connector?]⟩).2 hpinned
  have hkind : (built multiplexed).connector.kind ≠ .custom := by
    rw [hnew]
    decide
  have hfits := hconforms firstOffer loopbackUri false _ firstOffer_selectsOffered hkind rfl
  obtain ⟨connected,calls,hconnect,hselected⟩ : ∃ connected calls,
      (built multiplexed).connect firstOffer true loopbackUri false [] = .ok connected calls ∧
      connected.protocol = .http2 := ⟨_,_,rfl,rfl⟩
  rw [hconnect] at hfits
  obtain ⟨s₀,s,item,h₀,hrun,hitem,hkey⟩ : ∃ (s₀ s : Client.State ℕ) (item : Pool.Pooled PoolClient ℕ),
      (built multiplexed).start ℕ = some s₀ ∧ runActions Client.State.step s₀ Client.multiplexing = some s ∧
      s.world.pooled.get 1 = some item ∧ item.key = 3 :=
    ⟨_,_,_,rfl,rfl,rfl,rfl⟩
  have hv : Pool.Holds s.world 3 item.value := .checkedOut hitem hkey rfl
  have hdialled : DialledBy ℕ String (built multiplexed) true Client.multiplexing := by
    intro r selected hmem
    obtain ⟨rfl,rfl⟩ : r = 0 ∧ selected = .http2 := by simpa [Client.multiplexing] using hmem
    exact ⟨firstOffer,firstOffer_selectsOffered,firstOffer_dialsCompatibly,loopbackUri,false,connected,calls,hconnect,
      hselected⟩
  exact ⟨connected,calls,s₀,s,item.value,hnew,hconnect,hfits.2,h₀,.ofRun hrun,hv,
    hheld ℕ s₀ s _ h₀ (.ofRun hrun) hdialled 3 item.value hv⟩

-- HTTP/1 only and then HTTP/2 only: the offers stay as they are
example : (built [.http1Only,.http2Only true]).config.protocol = .http2 ∧
    (built [.http1Only,.http2Only true]).connector.alpnProtocols = [http11] :=
  ⟨rfl,rfl⟩

end H12Tiny.Connect
