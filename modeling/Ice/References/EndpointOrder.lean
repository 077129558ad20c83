import Ice.References.Reference

/-!
# The order of endpoints

Endpoints are compared by their fields if they are of one class, and by their types if they are
not. Where the type determines the class, as it does for the endpoints of one communicator, this
is the order of the ranks: the type first, then the fields.
-/

namespace Ice.References

open Lib

section

variable {β : Type} [LT β] [DecidableLT β] [DecidableEq β] [Rankable β] (a b : β)

/-- The tests of a field tell it apart. -/
theorem lt_cases :
    (a < b ∧ ¬b < a ∧ a ≠ b) ∨ (¬a < b ∧ ¬b < a ∧ a = b) ∨ (¬a < b ∧ b < a ∧ a ≠ b) := by
  have h := Rankable.ranked a b
  have hlt : a < b ↔ Rankable.rank a [] < Rankable.rank b [] := by simpa using h.lt_iff
  have hgt : b < a ↔ Rankable.rank b [] < Rankable.rank a [] := by simpa using h.symm.lt_iff
  have heq : a = b ↔ Rankable.rank a [] = Rankable.rank b [] := by simpa using h.eq_iff
  rw [hlt, hgt, Ne, heq]
  rcases lt_trichotomy (Rankable.rank a []) (Rankable.rank b []) with hr | hr | hr
  · exact .inl ⟨hr, hr.asymm, hr.ne⟩
  · exact .inr (.inl ⟨hr.not_lt, hr.not_gt, hr⟩)
  · exact .inr (.inr ⟨hr.asymm, hr, hr.ne'⟩)

/-- A comparison that gives a number is ranked by its sign. -/
theorem ranksAt_compareThen {rest : Int} {ra rb : List Int → List Int}
    (h : a = b → RanksAt (rest < 0) (rest = 0) ra rb) :
    RanksAt (compareThen a b rest < 0) (compareThen a b rest = 0)
      (fun s => Rankable.rank a (ra s)) (fun s => Rankable.rank b (rb s)) := by
  apply (ranksAt_chainOf a b h).congr
  · unfold compareThen chainOf chain
    rcases lt_cases a b with ⟨hl, hg, he⟩ | ⟨hl, hg, he⟩ | ⟨hl, hg, he⟩ <;> simp [hl, hg]
  · unfold compareThen
    rcases lt_cases a b with ⟨hl, hg, he⟩ | ⟨hl, hg, he⟩ | ⟨hl, hg, he⟩ <;> simp [hl, hg, he]
    subst he
    simp [hl]

theorem compareThen_swap (rest : Int) :
    compareThen b a (-rest) = -compareThen a b rest := by
  unfold compareThen
  rcases lt_cases a b with ⟨hl, hg, _⟩ | ⟨hl, hg, _⟩ | ⟨hl, hg, _⟩ <;> simp [hl, hg]

end

/-- The rank of an address -/
def Address.rank (a : Address) (s : List Int) : List Int :=
  Rankable.rank a.family <|
    match a with
    | .unspec => s
    | .in4 port addr => Rankable.rank port (Rankable.rank addr s)
    | .in6 port addr => Rankable.rank port (Rankable.rank addr s)

theorem compareAddress_swap (a b : Address) : compareAddress b a = -compareAddress a b := by
  have hzero : (0 : Int) = -0 := rfl
  unfold compareAddress
  rw [← compareThen_swap]
  congr 1
  cases a <;> cases b <;> try rfl
  all_goals
    dsimp only
    rw [← compareThen_swap, ← compareThen_swap, ← hzero]

theorem ranksAt_address (a b : Address) :
    RanksAt (compareAddress a b < 0) (compareAddress a b = 0) a.rank b.rank := by
  have hzero : RanksAt ((0 : Int) < 0) ((0 : Int) = 0) id id := RanksAt.nil
  apply ranksAt_compareThen
  intro hfamily
  cases a <;> cases b <;> try cases hfamily
  · exact hzero
  all_goals
    apply ranksAt_compareThen
    intro _
    apply ranksAt_compareThen
    exact fun _ => hzero

/-- Addresses are compared by their families, ports and numbers. -/
theorem ranked_address (a b : Address) :
    Ranked (fun a b => compareAddress a b < 0)
      (fun a b => compareAddress a b = 0) Address.rank a b :=
  ⟨ranksAt_address a b, ranksAt_address b a⟩

/-- The rank of an IP endpoint without its type -/
def IPEndpointI.rank (p : IPEndpointI) (s : List Int) : List Int :=
  Rankable.rank p.host <| Rankable.rank p.port <| Rankable.rank p.connectionId <|
    p.sourceAddr.rank s

theorem ranksAt_ip {l r : IPEndpointI} (h : l.type = r.type) :
    RanksAt (l.lt r) (l.eq r) l.rank r.rank := by
  have haddress := (ranked_address l.sourceAddr r.sourceAddr).chain fun _ => RanksAt.nil
  have hranks := ranksAt_chainOf l.host r.host fun _ => ranksAt_chainOf l.port r.port fun _ =>
    ranksAt_chainOf l.connectionId r.connectionId fun _ => haddress
  apply hranks.congr
  · unfold IPEndpointI.lt
    have htype : ¬l.type < r.type ∧ ¬r.type < l.type := by omega
    have hgreater : compareAddress r.sourceAddr l.sourceAddr < 0 ↔
        0 < compareAddress l.sourceAddr r.sourceAddr := by
      rw [compareAddress_swap l.sourceAddr]
      omega
    simp only [chainOf, chain, htype, decide_false, Bool.false_eq_true, if_false, hgreater]
  · unfold IPEndpointI.eq
    simp only [Bool.and_true, Bool.and_assoc]


/-- The class of an endpoint and those of the endpoints it delegates to -/
inductive Form
  | tcp
  | udp
  | opaqueEndpoint
  | ws (delegate : Form)
  | ssl (delegate : Form)
  | bt
  | iap
  deriving DecidableEq

def EndpointI.form : EndpointI → Form
  | .tcp .. => .tcp
  | .udp .. => .udp
  | .opaqueEndpoint .. => .opaqueEndpoint
  | .ws delegate _ => .ws delegate.form
  | .ssl delegate => .ssl delegate.form
  | .bt .. => .bt
  | .iap .. => .iap

/-- The factories of endpoints: a type has one, which makes endpoints of one form. A communicator
may have some of them only. -/
structure Factories where
  form : Int → Form
  injective : ∀ t t', form t = form t' → form t ≠ .opaqueEndpoint → t = t'

/-- An endpoint that the factories make, or one that is opaque for the want of a factory -/
def Factories.Makes (f : Factories) (e : EndpointI) : Prop :=
  e.form = .opaqueEndpoint ∨ f.form e.type = e.form

/-- Endpoints of one type, for which one communicator has a factory and the other one has none -/
def EndpointI.Mismatched (l r : EndpointI) : Prop := l.type = r.type ∧ l.form ≠ r.form

namespace EndpointI

/-- The rank of an endpoint among those of its type -/
def fields : EndpointI → List Int → List Int
  | .tcp ip timeout compress, s => Rankable.rank timeout <| Rankable.rank compress <| ip.rank s
  | .udp ip interface ttl connect compress, s =>
    Rankable.rank compress <| Rankable.rank connect <| Rankable.rank ttl <|
      Rankable.rank interface <| ip.rank s
  | .opaqueEndpoint type encoding bytes, s =>
    Rankable.rank type <| Rankable.rank encoding.major <| Rankable.rank encoding.minor <|
      Rankable.rank bytes s
  | .ws delegate resource, s => fields delegate (Rankable.rank resource s)
  | .ssl delegate, s => fields delegate s
  | .bt _ addr uuid id channel timeout compress, s =>
    Rankable.rank addr <| Rankable.rank uuid <| Rankable.rank id <| Rankable.rank channel <|
      Rankable.rank timeout <| Rankable.rank compress s
  | .iap _ manufacturer model name protocol timeout id compress, s =>
    Rankable.rank manufacturer <| Rankable.rank model <| Rankable.rank name <|
      Rankable.rank protocol <| Rankable.rank timeout <| Rankable.rank id <|
      Rankable.rank compress s

attribute [local simp] lt eq

section

variable {ip ip' : IPEndpointI} {interface interface' addr addr' uuid uuid' id id' : Str}
  {manufacturer manufacturer' model model' name name' protocol protocol' resource resource' : Str}
  {type type' timeout timeout' ttl ttl' channel channel' : Int} {compress compress' : Bool}
  {connect connect' : Bool} {encoding encoding' : Version} {bytes bytes' : List UInt8}
  {l r delegate delegate' : EndpointI}

theorem ranksAt_tcp (h : ip.type = ip'.type) :
    RanksAt ((tcp ip timeout compress).lt (tcp ip' timeout' compress'))
      ((tcp ip timeout compress).eq (tcp ip' timeout' compress'))
      (tcp ip timeout compress).fields (tcp ip' timeout' compress').fields := by
  have hranks := ranksAt_chainOf timeout timeout' fun _ =>
    ranksAt_chainOf compress compress' fun _ => ranksAt_ip h
  apply hranks.congr
  · rw [lt]
  · rw [eq]
    ac_rfl

theorem ranksAt_udp (h : ip.type = ip'.type) :
    RanksAt
      ((udp ip interface ttl connect compress).lt (udp ip' interface' ttl' connect' compress'))
      ((udp ip interface ttl connect compress).eq (udp ip' interface' ttl' connect' compress'))
      (udp ip interface ttl connect compress).fields
      (udp ip' interface' ttl' connect' compress').fields := by
  have hranks := ranksAt_chainOf compress compress' fun _ =>
    ranksAt_chainOf connect connect' fun _ => ranksAt_chainOf ttl ttl' fun _ =>
    ranksAt_chainOf interface interface' fun _ => ranksAt_ip h
  apply hranks.congr
  · rw [lt]
  · rw [eq]
    ac_rfl

theorem ranksAt_opaqueEndpoint :
    RanksAt ((opaqueEndpoint type encoding bytes).lt (opaqueEndpoint type' encoding' bytes'))
      ((opaqueEndpoint type encoding bytes).eq (opaqueEndpoint type' encoding' bytes'))
      (opaqueEndpoint type encoding bytes).fields
      (opaqueEndpoint type' encoding' bytes').fields := by
  have hranks := ranksAt_chainOf type type' fun _ =>
    ranksAt_chainOf encoding.major encoding'.major fun _ =>
    ranksAt_chainOf encoding.minor encoding'.minor fun _ =>
    ranksAt_chainOf bytes bytes' fun _ => RanksAt.nil
  apply hranks.congr
  · rw [lt]
  · cases encoding
    cases encoding'
    simp [eq, Bool.and_assoc]

theorem ranksAt_bt (h : type = type') :
    RanksAt ((bt type addr uuid id channel timeout compress).lt
        (bt type' addr' uuid' id' channel' timeout' compress'))
      ((bt type addr uuid id channel timeout compress).eq
        (bt type' addr' uuid' id' channel' timeout' compress'))
      (bt type addr uuid id channel timeout compress).fields
      (bt type' addr' uuid' id' channel' timeout' compress').fields := by
  have hranks := ranksAt_chainOf addr addr' fun _ => ranksAt_chainOf uuid uuid' fun _ =>
    ranksAt_chainOf id id' fun _ => ranksAt_chainOf channel channel' fun _ =>
    ranksAt_chainOf timeout timeout' fun _ =>
    ranksAt_chainOf compress compress' fun _ => RanksAt.nil
  apply hranks.congr
  · rw [lt, h]
    simp [chainOf, chain]
  · simp [eq, Bool.and_assoc]

theorem ranksAt_iap :
    RanksAt ((iap type manufacturer model name protocol timeout id compress).lt
        (iap type' manufacturer' model' name' protocol' timeout' id' compress'))
      ((iap type manufacturer model name protocol timeout id compress).eq
        (iap type' manufacturer' model' name' protocol' timeout' id' compress'))
      (iap type manufacturer model name protocol timeout id compress).fields
      (iap type' manufacturer' model' name' protocol' timeout' id' compress').fields := by
  have hranks := ranksAt_chainOf manufacturer manufacturer' fun _ =>
    ranksAt_chainOf model model' fun _ => ranksAt_chainOf name name' fun _ =>
    ranksAt_chainOf protocol protocol' fun _ => ranksAt_chainOf timeout timeout' fun _ =>
    ranksAt_chainOf id id' fun _ => ranksAt_chainOf compress compress' fun _ => RanksAt.nil
  apply hranks.congr
  · rw [lt]
  · simp [eq, Bool.and_assoc]

section

variable (h : Ranked lt eq fields delegate delegate')

include h

theorem ranksAt_ws :
    RanksAt ((ws delegate resource).lt (ws delegate' resource'))
      ((ws delegate resource).eq (ws delegate' resource'))
      (ws delegate resource).fields (ws delegate' resource').fields := by
  have hranks := h.chain fun _ => ranksAt_chainOf resource resource' fun _ => RanksAt.nil
  apply hranks.congr
  · rw [lt]
  · rw [eq, Bool.and_true]

theorem ranksAt_ssl :
    RanksAt ((ssl delegate).lt (ssl delegate')) ((ssl delegate).eq (ssl delegate'))
      (ssl delegate).fields (ssl delegate').fields := by
  have hranks := h.chain fun _ => RanksAt.nil
  apply hranks.congr
  · rw [lt]
  · rw [eq, Bool.and_true]

end

/-- Endpoints of one form and one type are ranked by their fields. -/
theorem ranked_fields (hform : l.form = r.form) (htype : l.type = r.type) :
    Ranked lt eq fields l r := by
  induction l generalizing r with
  | tcp ip timeout compress =>
    cases r <;> try cases hform
    exact ⟨ranksAt_tcp htype, ranksAt_tcp htype.symm⟩
  | udp ip interface ttl connect compress =>
    cases r <;> try cases hform
    exact ⟨ranksAt_udp htype, ranksAt_udp htype.symm⟩
  | opaqueEndpoint type encoding bytes =>
    cases r <;> try cases hform
    exact ⟨ranksAt_opaqueEndpoint, ranksAt_opaqueEndpoint⟩
  | ws delegate resource ih =>
    cases r <;> try cases hform
    have hdelegate := ih (Form.ws.inj hform) htype
    exact ⟨ranksAt_ws hdelegate, ranksAt_ws hdelegate.symm⟩
  | ssl delegate ih =>
    cases r <;> try cases hform
    have hdelegate := ih (Form.ssl.inj hform) htype
    exact ⟨ranksAt_ssl hdelegate, ranksAt_ssl hdelegate.symm⟩
  | bt type addr uuid id channel timeout compress =>
    cases r <;> try cases hform
    exact ⟨ranksAt_bt htype, ranksAt_bt htype.symm⟩
  | iap type manufacturer model name protocol timeout id compress =>
    cases r <;> try cases hform
    exact ⟨ranksAt_iap, ranksAt_iap⟩

theorem ssl_lt (l r : EndpointI) : (ssl l).lt (ssl r) = l.lt r := by
  rw [lt]
  unfold chain
  split <;> simp_all

theorem ssl_eq (l r : EndpointI) : (ssl l).eq (ssl r) = l.eq r := by
  rw [eq]

/-- Endpoints of different forms are told apart by their types. -/
theorem lt_of_form_ne (hform : l.form ≠ r.form) (htype : l.type ≠ r.type) :
    (l.lt r = decide (l.type < r.type) ∧ l.eq r = false) ∧
      r.lt l = decide (r.type < l.type) ∧ r.eq l = false := by
  induction l generalizing r with
  | ws delegate resource ih =>
    cases r with
    | ws delegate' resource' =>
      have hdelegates : delegate.form ≠ delegate'.form := fun h => hform (congrArg Form.ws h)
      obtain ⟨⟨hlt, heq⟩, hgt, heq'⟩ := ih hdelegates htype
      have htypes : delegate.type ≠ delegate'.type := htype
      simp only [lt, eq, hlt, hgt, heq, heq', type, chain, Bool.false_and, and_true]
      rcases lt_or_gt_of_ne htypes with h | h
      · simp [h, h.not_gt]
      · simp [h, h.not_gt]
    | _ => simp [lt, eq]
  | ssl delegate ih =>
    cases r with
    | ssl delegate' =>
      have hdelegates : delegate.form ≠ delegate'.form := fun h => hform (congrArg Form.ssl h)
      obtain ⟨⟨hlt, heq⟩, hgt, heq'⟩ := ih hdelegates htype
      rw [← ssl_lt] at hlt hgt
      rw [← ssl_eq] at heq heq'
      exact ⟨⟨hlt, heq⟩, hgt, heq'⟩
    | _ => simp [lt, eq]
  | _ => cases r <;> first | exact absurd rfl hform | simp [lt, eq]

theorem opaqueEndpoint_tests (hl : l.form = .opaqueEndpoint) (hr : r.form = .opaqueEndpoint)
    (htype : l.type ≠ r.type) :
    (l.lt r = decide (l.type < r.type) ∧ l.eq r = false) ∧
      r.lt l = decide (r.type < l.type) ∧ r.eq l = false := by
  cases l <;> try cases hl
  cases r <;> try cases hr
  rename_i type _ _ type' _ _
  have htypes : type ≠ type' := htype
  rcases lt_or_gt_of_ne htypes with h | h
  all_goals simp [lt, eq, EndpointI.type, chainOf, chain, h, h.not_gt, htypes, htypes.symm]

/-- The rank of an endpoint -/
def rank (e : EndpointI) (s : List Int) : List Int := Rankable.rank e.type (e.fields s)

/-- Endpoints of one class are of one type, unless they are opaque. -/
theorem opaqueEndpoint_of_form {f : Factories} (hl : f.Makes l) (hr : f.Makes r)
    (hform : l.form = r.form) (htype : l.type ≠ r.type) : l.form = .opaqueEndpoint := by
  by_contra hne
  apply htype
  have hleft := hl.resolve_left hne
  have hright := hr.resolve_left (hform ▸ hne)
  apply f.injective
  · rw [hleft, hright, hform]
  · rw [hleft]
    exact hne

/-- Two endpoints are told apart by their types or ranked by their fields. -/
theorem ranked_makes {f : Factories} (hl : f.Makes l) (hr : f.Makes r) (h : ¬l.Mismatched r) :
    Ranked lt eq rank l r := by
  by_cases htype : l.type = r.type
  · have hform : l.form = r.form := by
      by_contra hne
      exact h ⟨htype, hne⟩
    have hranks := ranked_fields hform htype
    have hat : ∀ {x y : EndpointI}, x.type = y.type → RanksAt (x.lt y) (x.eq y) x.fields y.fields →
        RanksAt (x.lt y) (x.eq y) x.rank y.rank := by
      intro x y hxy h
      apply (ranksAt_chainOf x.type y.type fun _ => h).congr
      · simp [hxy, chainOf, chain]
      · simp [hxy]
    exact ⟨hat htype hranks.at_left, hat htype.symm hranks.at_right⟩
  · have htests : (l.lt r = decide (l.type < r.type) ∧ l.eq r = false) ∧
        r.lt l = decide (r.type < l.type) ∧ r.eq l = false := by
      by_cases hform : l.form = r.form
      · have hopaque := opaqueEndpoint_of_form hl hr hform htype
        exact opaqueEndpoint_tests hopaque (hform ▸ hopaque) htype
      · exact lt_of_form_ne hform htype
    have hat : ∀ {x y : EndpointI}, x.type ≠ y.type → x.lt y = decide (x.type < y.type) →
        x.eq y = false → RanksAt (x.lt y) (x.eq y) x.rank y.rank := by
      intro x y hxy hlt heq
      have hfields : x.type = y.type → RanksAt false true x.fields y.fields :=
        fun h => absurd h hxy
      apply (ranksAt_chainOf x.type y.type hfields).congr
      · rw [hlt]
        simp only [chainOf, chain, Bool.if_false_right]
        rcases lt_or_gt_of_ne hxy with h | h <;> simp [h]
      · simp [heq, hxy]
    obtain ⟨⟨hlt, heq⟩, hgt, heq'⟩ := htests
    exact ⟨hat htype hlt heq, hat (Ne.symm htype) hgt heq'⟩

end

end EndpointI

end Ice.References
