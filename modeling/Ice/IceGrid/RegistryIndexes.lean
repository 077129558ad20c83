import Ice.IceGrid.RegistryDatabase

/-!
# Indexes and topics of a registry

Whatever is done with the tables of a registry, the indexes have the pairs of the records and no
others, and the topics have the records of the tables. This needs a condition, as
`addOrUpdateObject` never finds the object that it updates.
-/

namespace Ice.IceGrid.Persistence

open Std
open List (foldlM_cons mem_cons_of_mem mem_cons_self)

/-- The indexes have a pair for each record, lookups by group or type find the records of it once,
and the topics have the records of the tables. -/
structure Mirrored (db : Database) : Prop where
  groups : Lib.Indexes AdapterInfo.replicaGroupId db.tables.adaptersByGroupId db.tables.adapters
  types : ∀ internal, Lib.Indexes ObjectInfo.type (db.tables.objectTables internal).objectsByType
    (db.tables.objectTables internal).objects
  byGroup : ∀ name, (db.tables.findByReplicaGroupId name).Nodup ∧
    ∀ info, info ∈ db.tables.findByReplicaGroupId name ↔
      db.tables.adapters[info.id]? = some info ∧ info.replicaGroupId = name
  byType : ∀ internal type, ((db.tables.objectTables internal).findByType type).Nodup ∧
    ∀ info, info ∈ (db.tables.objectTables internal).findByType type ↔
      (db.tables.objectTables internal).objects[info.identity]? = some info ∧ info.type = type
  adapterTopic : db.adapterObserverTopic.records = db.tables.adapters
  objectTopic : db.objectObserverTopic.records = db.tables.registered.objects

/-- The condition on the steps: `addOrUpdateObject` adds an object, or puts what is there, and
records that are synchronised have keys of their own. -/
def Careful (db : Database) (a : Operation × Bool) : Prop :=
  match a.1 with
  | .addOrUpdateObject info _ =>
    (db.objectCache info.identity).isSome = true ∨
      db.tables.registered.objects[info.identity]?.all (· = info) = true
  | .syncAdapters adapters _ => ∀ a ∈ adapters, ∀ b ∈ adapters, a.id = b.id → a = b
  | .syncObjects objects _ => ∀ a ∈ objects, ∀ b ∈ objects, a.identity = b.identity → a = b
  | _ => True

instance (db : Database) (a : Operation × Bool) : Decidable (Careful db a) := by
  rw [Careful]
  split <;> infer_instance

/-- The index by type is that of the objects, and each has a proxy. -/
structure ObjectTables.Sound (o : ObjectTables) : Prop where
  types : Lib.Indexes ObjectInfo.type o.objectsByType o.objects
  keyed : Lib.Keyed ObjectInfo.identity o.objects
  proxies : ∀ (id : Ice.Identity) info, o.objects[id]? = some info → info.proxy ≠ none

section objects

variable {o : ObjectTables} {info old : ObjectInfo} {id : Ice.Identity}

theorem ObjectTables.Sound.empty : ({} : ObjectTables).Sound :=
  ⟨.empty, .empty, fun _ _ h => by simp at h⟩

theorem getElem?_put : (o.put info).objects[id]? =
    if compare info.identity id = .eq then some info else o.objects[id]? :=
  ExtTreeMap.getElem?_insert

theorem proxies_put (h : ∀ (id : Ice.Identity) info, o.objects[id]? = some info → info.proxy ≠ none)
    (hproxy : info.proxy ≠ none) (id : Ice.Identity) (info' : ObjectInfo)
    (hget : (o.put info).objects[id]? = some info') : info'.proxy ≠ none := by
  rw [getElem?_put] at hget
  split at hget
  · cases hget
    exact hproxy
  · exact h id info' hget

section

variable (h : o.Sound)

include h

section

variable (hproxy : info.proxy ≠ none)

include hproxy

/-- An object is added. -/
theorem ObjectTables.Sound.put_new
    (hnone : o.objects[info.identity]? = none) : (o.put info).Sound where
  types := h.types.insert_new hnone
  keyed := h.keyed.insert rfl
  proxies := proxies_put h.proxies hproxy

/-- An object keeps its type. -/
theorem ObjectTables.Sound.put_same
    (hold : o.objects[info.identity]? = some old) (htype : old.type = info.type) :
    (o.put info).Sound where
  types := h.types.insert_same hold htype
  keyed := h.keyed.insert rfl
  proxies := proxies_put h.proxies hproxy

/-- The pair of the object has been removed. -/
theorem ObjectTables.Sound.put_moved
    (hold : o.objects[info.identity]? = some old) :
    ((o.delType old.type info.identity).put info).Sound where
  types := h.types.insert_moved hold
  keyed := h.keyed.insert rfl
  proxies := proxies_put h.proxies hproxy

end

theorem ObjectTables.Sound.del (hold : o.objects[id]? = some info) :
    (o.del info).Sound := by
  have hid : info.identity = id := h.keyed id info hold
  subst hid
  refine ⟨h.types.erase hold, h.keyed.erase, ?_⟩
  intro id info' hget
  rw [ObjectTables.del, ExtTreeMap.getElem?_erase] at hget
  split at hget
  · cases hget
  · exact h.proxies id info' hget

/-- No object has the empty identity. -/
theorem ObjectTables.Sound.getElem?_empty :
    o.objects[Ice.Identity.empty]? = none := by
  cases hget : o.objects[Ice.Identity.empty]? with
  | none => rfl
  | some info =>
    have hid : info.identity = .empty := h.keyed _ _ hget
    obtain ⟨proxy, hproxy⟩ := Option.ne_none_iff_exists'.mp (h.proxies _ _ hget)
    rw [ObjectInfo.identity, hproxy] at hid
    exact absurd (congrArg Ice.Identity.name hid) proxy.named

theorem ObjectTables.Sound.mem_findByType {type : String} :
    info ∈ o.findByType type ↔ o.objects[info.identity]? = some info ∧ info.type = type := by
  rw [ObjectTables.findByType, h.types.mem_readGroup]
  constructor
  · rintro ⟨id, hget, htype⟩
    rw [h.keyed id info hget]
    exact ⟨hget, htype⟩
  · rintro ⟨hget, htype⟩
    exact ⟨_, hget, htype⟩

end

end objects

/-- The indexes are those of the tables. -/
structure Tables.Sound (t : Tables) : Prop where
  groups : Lib.Indexes AdapterInfo.replicaGroupId t.adaptersByGroupId t.adapters
  keyed : Lib.Keyed AdapterInfo.id t.adapters
  registered : t.registered.Sound
  internal : t.internal.Sound

section tables

variable {t t' : Tables} {info old : AdapterInfo} {object : ObjectInfo} {internal : Bool}
  {o : ObjectTables}

theorem bind_ok {α β : Type} {x : Except Exception α} {f : α → Except Exception β} {b : β}
    (h : x >>= f = .ok b) : ∃ a, x = .ok a ∧ f a = .ok b := by
  cases x with
  | error e => cases h
  | ok a => exact ⟨a, rfl, h⟩

theorem transaction_ok {α : Type} {fails : Bool} {body : Except Exception α} {a : α}
    (h : transaction fails body = .ok a) : body = .ok a := by
  obtain ⟨a', hbody, h⟩ := bind_ok h
  split at h
  · cases h
  · cases h
    exact hbody

theorem getIdentity_ok {α : Type} {f : Ice.Identity → Except Exception α} {a : α}
    (h : object.getIdentity >>= f = .ok a) : object.proxy ≠ none ∧ f object.identity = .ok a := by
  obtain ⟨id, hid, h⟩ := bind_ok h
  rw [ObjectInfo.getIdentity] at hid
  split at hid
  · cases hid
  · cases hid
    exact ⟨‹_›, h⟩

theorem Tables.addObject_ok (h : t.addObject object internal = .ok t') : object.proxy ≠ none ∧
    t' = t.setObjectTables internal ((t.objectTables internal).put object) := by
  obtain ⟨hproxy, h⟩ := getIdentity_ok h
  split at h
  · cases h
  · split at h
    · cases h
    · cases h
      exact ⟨hproxy, rfl⟩

theorem Tables.addAdapter_ok (h : t.addAdapter info = .ok t') : t' = { t with
    adapters := t.adapters.insert info.id info
    adaptersByGroupId := t.adaptersByGroupId.insert (info.replicaGroupId, info.id) } := by
  rw [Tables.addAdapter] at h
  split at h
  · cases h
    rfl
  · cases h

theorem Tables.updateSerial_snd (t : Tables) (dbName : String) (serial : Int) :
    ∃ serials, (t.updateSerial dbName serial).2 = { t with serials } := by
  rw [Tables.updateSerial]
  split
  · exact ⟨t.serials, rfl⟩
  · exact ⟨_, rfl⟩

variable {f : Int × Tables → Except Exception Database} {dbName : String}

/-- The transaction ends with the new serial. -/
theorem serial_ok {fails : Bool} {n : Int} {db' : Database}
    (h : transaction fails (.ok (t.updateSerial dbName n)) >>= f = .ok db') :
    ∃ serial serials, f (serial, { t with serials }) = .ok db' := by
  obtain ⟨serials, hserials⟩ := t.updateSerial_snd dbName n
  obtain ⟨result, hbody, hf⟩ := bind_ok h
  obtain rfl := Except.ok.inj (transaction_ok hbody)
  refine ⟨(t.updateSerial dbName n).1, serials, ?_⟩
  rwa [← hserials]

theorem commit_ok {fails : Bool} {n : Int} {x : Except Exception Tables}
    {db' : Database}
    (h : (transaction fails do .ok ((← x).updateSerial dbName n)) >>= f = .ok db') :
    ∃ t serial serials, x = .ok t ∧ f (serial, { t with serials }) = .ok db' := by
  cases x with
  | error e =>
    obtain ⟨_, hbody, -⟩ := bind_ok h
    cases transaction_ok hbody
  | ok t =>
    obtain ⟨serial, serials, hf⟩ := serial_ok h
    exact ⟨t, serial, serials, rfl, hf⟩

section

variable (h : t.Sound)

include h

theorem Tables.Sound.serials {serials : ExtTreeMap String Int} :
    ({ t with serials } : Tables).Sound :=
  { h with }

theorem Tables.Sound.objectTables : (t.objectTables internal).Sound := by
  cases internal
  · exact h.registered
  · exact h.internal

theorem Tables.Sound.setObjectTables (internal : Bool) (ho : o.Sound) :
    (t.setObjectTables internal o).Sound := by
  cases internal
  · exact { h with registered := ho }
  · exact { h with internal := ho }

theorem Tables.Sound.deleteObject (internal : Bool) {id : Ice.Identity}
    (hold : (t.objectTables internal).objects[id]? = some object) :
    (t.deleteObject object internal).Sound :=
  h.setObjectTables internal (h.objectTables.del hold)

theorem Tables.Sound.deleteAdapter {id : String}
    (hold : t.adapters[id]? = some info) : (t.deleteAdapter info).Sound := by
  have hid : info.id = id := h.keyed id info hold
  subst hid
  exact { h with groups := h.groups.erase hold, keyed := h.keyed.erase }

/-- An adapter is put whose old pair, if it had one, is removed or is the new one. -/
theorem Tables.Sound.addAdapter (index : Lib.Pairs String String)
    (hadd : ({ t with adaptersByGroupId := index } : Tables).addAdapter info = .ok t')
    (hgroups : Lib.Indexes AdapterInfo.replicaGroupId
      (index.insert (info.replicaGroupId, info.id)) (t.adapters.insert info.id info)) :
    t'.Sound := by
  rw [Tables.addAdapter_ok hadd]
  exact { h with groups := hgroups, keyed := h.keyed.insert rfl }

theorem Tables.Sound.mem_findByReplicaGroupId {name : String} :
    info ∈ t.findByReplicaGroupId name ↔
      t.adapters[info.id]? = some info ∧ info.replicaGroupId = name := by
  rw [Tables.findByReplicaGroupId, h.groups.mem_readGroup]
  constructor
  · rintro ⟨id, hget, hgroup⟩
    rw [h.keyed id info hget]
    exact ⟨hget, hgroup⟩
  · rintro ⟨hget, hgroup⟩
    exact ⟨_, hget, hgroup⟩

end

end tables

/-- The topics hold the records of the tables. -/
structure Consistent (db : Database) : Prop where
  tables : db.tables.Sound
  adapterTopic : db.adapterObserverTopic.records = db.tables.adapters
  objectTopic : db.objectObserverTopic.records = db.tables.registered.objects

theorem Consistent.mirrored {db : Database} (h : Consistent db) : Mirrored db where
  groups := h.tables.groups
  types _ := h.tables.objectTables.types
  byGroup _ := ⟨h.tables.groups.nodup_readGroup h.tables.keyed,
    fun _ => h.tables.mem_findByReplicaGroupId⟩
  byType _ _ := ⟨h.tables.objectTables.types.nodup_readGroup h.tables.objectTables.keyed,
    fun _ => h.tables.objectTables.mem_findByType⟩
  adapterTopic := h.adapterTopic
  objectTopic := h.objectTopic

section adapters

variable {db db' : Database} {fails : Bool} {info : AdapterInfo}

variable {t t' : Tables} {dbSerial : Int} {infos : List AdapterInfo}

/-- The pair of the old record of an adapter is removed where its group changes. -/
theorem Tables.Sound.setAdapter (h : t.Sound) (info : AdapterInfo)
    (hadd : (if info.replicaGroupId ≠ (t.adapters[info.id]?.getD {}).replicaGroupId then
        { t with adaptersByGroupId :=
          t.adaptersByGroupId.erase ((t.adapters[info.id]?.getD {}).replicaGroupId, info.id) }
      else t).addAdapter info = .ok t') :
    t'.Sound ∧ t'.adapters = t.adapters.insert info.id info ∧ t'.registered = t.registered := by
  split at hadd
  · rename_i hne
    refine ⟨h.addAdapter _ hadd ?_, ?_⟩
    · cases hfound : t.adapters[info.id]? with
      | none =>
        apply h.groups.insert
        · intro g k hk
          exact Lib.mem_erase_pair_of_ne hk
        · intro g hmem
          obtain ⟨v, hv, -⟩ := (h.groups g _).mp (Lib.mem_erase_pair.mp hmem).2
          cases hfound.symm.trans hv
      | some old => exact h.groups.insert_moved hfound
    · rw [Tables.addAdapter_ok hadd]
      exact ⟨rfl, rfl⟩
  · rename_i hsame
    refine ⟨h.addAdapter t.adaptersByGroupId hadd ?_, ?_⟩
    · cases hfound : t.adapters[info.id]? with
      | none => exact h.groups.insert_new hfound
      | some old =>
        rw [hfound, Option.getD_some, not_not] at hsame
        exact h.groups.insert_same hfound hsame.symm
    · rw [Tables.addAdapter_ok hadd]
      exact ⟨rfl, rfl⟩

theorem Consistent.setAdapterDirectProxy (h : Consistent db) {adapterId replicaGroupId : String}
    {proxy : Option Ice.ObjectPrx}
    (hs : db.setAdapterDirectProxy adapterId replicaGroupId proxy dbSerial fails = .ok db') :
    Consistent db' := by
  rw [Database.setAdapterDirectProxy] at hs
  split at hs
  · cases hs
  · split at hs
    · cases hs
    · dsimp only at hs
      split at hs
      · obtain ⟨t, serial, serials, hadd, hs⟩ := commit_ok hs
        obtain ⟨hsound, hadapters, hregistered⟩ :=
          h.tables.setAdapter ⟨adapterId, proxy, replicaGroupId⟩ hadd
        cases hs
        refine ⟨hsound.serials, ?_, h.objectTopic.trans (congrArg _ hregistered.symm)⟩
        dsimp only
        rw [hadapters, ← h.adapterTopic]
        split
        · rfl
        · rename_i hnone
          exact Lib.insertIfNew_eq_insert (.inl (Option.not_isSome_iff_eq_none.mp hnone))
      · split at hs
        · cases hs
          exact h
        · rename_i hfound
          obtain ⟨serial, serials, hs⟩ := serial_ok hs
          obtain ⟨old, hold⟩ : ∃ old, db.tables.adapters[adapterId]? = some old := by
            apply Option.ne_none_iff_exists'.mp
            intro hnone
            rw [hnone] at hfound
            exact hfound rfl
          have hid : old.id = adapterId := h.tables.keyed _ _ hold
          cases hs
          rw [hold, Option.getD_some]
          refine ⟨(h.tables.deleteAdapter hold).serials, ?_, h.objectTopic⟩
          change db.adapterObserverTopic.records.erase adapterId = db.tables.adapters.erase old.id
          rw [h.adapterTopic, hid]

theorem Tables.Sound.ungroup (h : t.Sound) (hold : t.adapters[info.id]? = some info)
    (hs : Database.ungroup t info = .ok t') : t'.Sound ∧
      t'.adapters = t.adapters.insert info.id { info with replicaGroupId := "" } ∧
        t'.registered = t.registered := by
  refine ⟨h.addAdapter _ hs (h.groups.insert_moved hold), ?_⟩
  rw [Tables.addAdapter_ok hs]
  exact ⟨rfl, rfl⟩

/-- The adapters of a replica group lose it one after the other. -/
theorem Tables.Sound.ungroupAll (h : t.Sound)
    (hinfos : ∀ info ∈ infos, t.adapters[info.id]? = some info) (hnodup : infos.Nodup)
    (hs : infos.foldlM Database.ungroup t = .ok t') : t'.Sound ∧
      t'.adapters = infos.foldl (fun records info =>
        records.insert info.id { info with replicaGroupId := "" }) t.adapters ∧
          t'.registered = t.registered := by
  induction infos generalizing t with
  | nil =>
    cases hs
    exact ⟨h, rfl, rfl⟩
  | cons info infos ih =>
    rw [foldlM_cons] at hs
    obtain ⟨t₁, ht₁, hs⟩ := bind_ok hs
    rw [List.forall_mem_cons] at hinfos
    obtain ⟨hnew, hnodup⟩ := List.nodup_cons.mp hnodup
    obtain ⟨hsound, hadapters, hregistered⟩ := h.ungroup hinfos.1 ht₁
    obtain ⟨hsound', hadapters', hregistered'⟩ := ih hsound (by
      intro other hother
      rw [hadapters, ExtTreeMap.getElem?_insert, if_neg]
      · exact hinfos.2 other hother
      · intro heq
        have hget := hinfos.2 other hother
        rw [← LawfulEqCmp.compare_eq_iff_eq.mp heq, hinfos.1] at hget
        cases hget
        exact hnew hother) hnodup hs
    refine ⟨hsound', ?_, hregistered'.trans hregistered⟩
    rw [hadapters', hadapters]
    rfl

theorem records_foldl_updated {topic : AdapterObserverTopic} {f : AdapterInfo → AdapterInfo} :
    (infos.foldl (fun (topic : AdapterObserverTopic) info =>
      topic.updated dbSerial info.id (f info)) topic).records =
        infos.foldl (fun records info => records.insert info.id (f info)) topic.records := by
  induction infos generalizing topic with
  | nil => rfl
  | cons info infos ih => exact ih

theorem Consistent.removeAdapter (h : Consistent db) {adapterId : String}
    (hs : db.removeAdapter adapterId fails = .ok db') : Consistent db' := by
  rw [Database.removeAdapter] at hs
  split at hs
  · cases hs
  · split at hs
    · rename_i info hold
      obtain ⟨serial, serials, hs⟩ := serial_ok hs
      have hid : info.id = adapterId := h.tables.keyed _ _ hold
      cases hs
      refine ⟨(h.tables.deleteAdapter hold).serials, ?_, h.objectTopic⟩
      change db.adapterObserverTopic.records.erase adapterId = db.tables.adapters.erase info.id
      rw [h.adapterTopic, hid]
    · dsimp only at hs
      split at hs
      · cases hs
      · obtain ⟨t, serial, serials, hungroup, hs⟩ := commit_ok hs
        cases hs
        obtain ⟨hsound, hadapters, hregistered⟩ := h.tables.ungroupAll
          (fun info hinfo => (h.tables.mem_findByReplicaGroupId.mp hinfo).1)
          (h.tables.groups.nodup_readGroup h.tables.keyed) hungroup
        refine ⟨hsound.serials, ?_, h.objectTopic.trans (congrArg _ hregistered.symm)⟩
        rw [records_foldl_updated, h.adapterTopic]
        exact hadapters.symm

/-- Adapters are put that are new, or there already. -/
theorem Tables.Sound.addAdapters (h : t.Sound)
    (hagrees : Lib.Agrees AdapterInfo.id t.adapters infos)
    (hsame : ∀ a ∈ infos, ∀ b ∈ infos, a.id = b.id → a = b)
    (hs : infos.foldlM Tables.addAdapter t = .ok t') : t'.Sound ∧
      t'.adapters = infos.foldl (fun records info => records.insert info.id info) t.adapters ∧
        t'.registered = t.registered := by
  induction infos generalizing t with
  | nil =>
    cases hs
    exact ⟨h, rfl, rfl⟩
  | cons info infos ih =>
    rw [foldlM_cons] at hs
    obtain ⟨t₁, ht₁, hs⟩ := bind_ok hs
    have hsound := h.addAdapter t.adaptersByGroupId ht₁
      (h.groups.insert_agreeing (hagrees info mem_cons_self))
    rw [Tables.addAdapter_ok ht₁] at hsound hs
    apply ih hsound _ _ hs
    · apply hagrees.insert
      intro b hb
      exact hsame info mem_cons_self b (mem_cons_of_mem _ hb)
    · intro a ha b hb
      exact hsame a (mem_cons_of_mem _ ha) b (mem_cons_of_mem _ hb)

theorem Consistent.syncAdapters (h : Consistent db) {adapters : List AdapterInfo}
    (hsame : ∀ a ∈ adapters, ∀ b ∈ adapters, a.id = b.id → a = b)
    (hs : db.syncAdapters adapters dbSerial fails = .ok db') : Consistent db' := by
  obtain ⟨t, serial, serials, hadd, hs⟩ := commit_ok hs
  cases hs
  have hempty : ({ db.tables with adapters := ∅, adaptersByGroupId := ∅ } : Tables).Sound :=
    { h.tables with groups := .empty, keyed := .empty }
  obtain ⟨hsound, hadapters, hregistered⟩ := hempty.addAdapters .empty hsame hadd
  refine ⟨hsound.serials, ?_, h.objectTopic.trans (congrArg _ hregistered.symm)⟩
  exact (Lib.foldl_insertIfNew .empty hsame).trans hadapters.symm

end adapters

section objects

variable {db db' : Database} {fails internal : Bool} {info : ObjectInfo} {t t' : Tables}

/-- An object is put that is new, or there already. -/
theorem Tables.Sound.addObject (h : t.Sound) (hs : t.addObject info internal = .ok t')
    (hold : (t.objectTables internal).objects[info.identity]? = none ∨
      ∃ old, (t.objectTables internal).objects[info.identity]? = some old ∧
        old.type = info.type) : t'.Sound := by
  obtain ⟨hproxy, rfl⟩ := Tables.addObject_ok hs
  apply h.setObjectTables internal
  rcases hold with hnone | ⟨old, hsome, htype⟩
  · exact h.objectTables.put_new hproxy hnone
  · exact h.objectTables.put_same hproxy hsome htype

/-- An object is put after its old pair was removed. -/
theorem Tables.Sound.replaceObject {old : ObjectInfo} (h : t.Sound) (internal : Bool)
    (hold : (t.objectTables internal).objects[info.identity]? = some old)
    (hs : (t.setObjectTables internal
      ((t.objectTables internal).delType old.type info.identity)).addObject info internal =
        .ok t') :
    t' = t.setObjectTables internal
        (((t.objectTables internal).delType old.type info.identity).put info) ∧ t'.Sound := by
  obtain ⟨hproxy, rfl⟩ := Tables.addObject_ok hs
  have hsound := h.setObjectTables internal (h.objectTables.put_moved hproxy hold)
  cases internal
  · exact ⟨rfl, hsound⟩
  · exact ⟨rfl, hsound⟩

variable {topic : ObjectObserverTopic}

/-- The topic puts the object that the tables put. -/
theorem Consistent.putObject (h : Consistent db)
    {serials : ExtTreeMap String Int} (hadd : db.tables.addObject info false = .ok t)
    (hold : db.tables.registered.objects[info.identity]? = none ∨
      ∃ old, db.tables.registered.objects[info.identity]? = some old ∧ old.type = info.type)
    (htopic : topic.records = db.objectObserverTopic.records.insert info.identity info) :
    Consistent { db with tables := { t with serials }, objectObserverTopic := topic } := by
  refine ⟨(h.tables.addObject hadd hold).serials, ?_, ?_⟩
  · obtain ⟨-, rfl⟩ := Tables.addObject_ok hadd
    exact h.adapterTopic
  · obtain ⟨-, rfl⟩ := Tables.addObject_ok hadd
    rw [htopic, h.objectTopic]
    rfl

theorem Consistent.addObject (h : Consistent db) (hs : db.addObject info fails = .ok db') :
    Consistent db' := by
  replace hs := (getIdentity_ok hs).2
  split at hs
  · cases hs
  · split at hs
    · obtain ⟨_, hbody, -⟩ := bind_ok hs
      cases transaction_ok hbody
    · rename_i hcontains
      have hnone : db.tables.registered.objects[info.identity]? = none := by
        apply ExtTreeMap.getElem?_eq_none
        rw [← ExtTreeMap.contains_iff_mem]
        exact hcontains
      obtain ⟨t, serial, serials, hadd, hs⟩ := commit_ok hs
      cases hs
      apply h.putObject hadd (.inl hnone)
      apply Lib.insertIfNew_eq_insert
      rw [h.objectTopic]
      exact .inl hnone

variable {dbSerial : Int} {infos objects : List ObjectInfo}

/-- The object is not there, or is the same. -/
theorem Consistent.addOrUpdateObject (h : Consistent db)
    (hcareful : (db.objectCache info.identity).isSome = true ∨
      db.tables.registered.objects[info.identity]?.all (· = info) = true)
    (hs : db.addOrUpdateObject info dbSerial fails = .ok db') : Consistent db' := by
  replace hs := (getIdentity_ok hs).2
  split at hs
  · cases hs
  · rename_i hcache
    have hagree : db.tables.registered.objects[info.identity]? = none ∨
        db.tables.registered.objects[info.identity]? = some info := by
      have hall := hcareful.resolve_left hcache
      cases hget : db.tables.registered.objects[info.identity]? with
      | none => exact .inl rfl
      | some old =>
        rw [hget, Option.all_some] at hall
        rw [of_decide_eq_true hall]
        exact .inr rfl
    dsimp only at hs
    rw [h.tables.registered.getElem?_empty] at hs
    obtain ⟨t, serial, serials, hadd, hs⟩ := commit_ok hs
    cases hs
    apply h.putObject hadd
    · exact hagree.imp_right fun hsome => ⟨info, hsome, rfl⟩
    · apply Lib.insertIfNew_eq_insert
      rw [h.objectTopic]
      exact hagree

theorem Consistent.removeObject (h : Consistent db) {id : Ice.Identity}
    (hs : db.removeObject id dbSerial fails = .ok db') : Consistent db' := by
  rw [Database.removeObject] at hs
  split at hs
  · cases hs
  · split at hs
    · cases hs
    · rename_i old hold
      obtain ⟨serial, serials, hs⟩ := serial_ok hs
      have hid : old.identity = id := h.tables.registered.keyed _ _ hold
      cases hs
      refine ⟨(h.tables.deleteObject false hold).serials, h.adapterTopic, ?_⟩
      change db.objectObserverTopic.records.erase id =
        db.tables.registered.objects.erase old.identity
      rw [h.objectTopic, hid]

theorem Consistent.updateObject (h : Consistent db) {proxy : Option Ice.ObjectPrx}
    (hs : db.updateObject proxy fails = .ok db') : Consistent db' := by
  replace hs := (getIdentity_ok hs).2
  split at hs
  · cases hs
  · split at hs
    · cases hs
    · rename_i old hold
      obtain ⟨t, serial, serials, hadd, hs⟩ := commit_ok hs
      cases hs
      exact h.putObject hadd (.inr ⟨old, hold, rfl⟩) rfl

/-- What a round of a loop keeps, the loop keeps. -/
theorem foldlM_objects {round : Tables → ObjectInfo → Except Exception Tables}
    {f : ExtTreeMap Ice.Identity ObjectInfo → ObjectInfo → ExtTreeMap Ice.Identity ObjectInfo}
    (hround : ∀ t t' info, t.Sound → round t info = .ok t' →
      t'.Sound ∧ t'.registered.objects = f t.registered.objects info ∧ t'.adapters = t.adapters)
    (h : t.Sound) (hs : infos.foldlM round t = .ok t') :
    t'.Sound ∧ t'.registered.objects = infos.foldl f t.registered.objects ∧
      t'.adapters = t.adapters := by
  induction infos generalizing t with
  | nil =>
    cases hs
    exact ⟨h, rfl, rfl⟩
  | cons info infos ih =>
    rw [foldlM_cons] at hs
    obtain ⟨t₁, ht₁, hs⟩ := bind_ok hs
    obtain ⟨hsound, hobjects, hadapters⟩ := hround t t₁ info h ht₁
    obtain ⟨hsound', hobjects', hadapters'⟩ := ih hsound hs
    refine ⟨hsound', ?_, hadapters'.trans hadapters⟩
    rw [hobjects', hobjects]
    rfl

theorem Tables.Sound.addOrUpdateWellKnownObject (h : t.Sound)
    (hs : Database.addOrUpdateWellKnownObject t info = .ok t') :
    t'.Sound ∧ t'.registered.objects = t.registered.objects.insert info.identity info ∧
      t'.adapters = t.adapters := by
  replace hs := (getIdentity_ok hs).2
  split at hs
  · rename_i old hold
    obtain ⟨rfl, hsound⟩ := h.replaceObject false hold hs
    exact ⟨hsound, rfl, rfl⟩
  · rename_i hnone
    refine ⟨h.addObject hs (.inl hnone), ?_⟩
    obtain ⟨-, rfl⟩ := Tables.addObject_ok hs
    exact ⟨rfl, rfl⟩

theorem Tables.Sound.removeWellKnownObject (h : t.Sound)
    (hs : Database.removeWellKnownObject t info = .ok t') :
    t'.Sound ∧ t'.registered.objects = t.registered.objects.erase info.identity ∧
      t'.adapters = t.adapters := by
  replace hs := (getIdentity_ok hs).2
  split at hs
  · rename_i old hold
    have hid : old.identity = info.identity := h.registered.keyed _ _ hold
    cases hs
    refine ⟨h.deleteObject false hold, ?_, rfl⟩
    exact congrArg t.registered.objects.erase hid
  · rename_i hnone
    cases hs
    exact ⟨h, (Lib.erase_of_none hnone).symm, rfl⟩

theorem records_addedOrUpdated :
    (topic.wellKnownObjectsAddedOrUpdated infos).records =
      infos.foldl (fun records info => records.insert info.identity info) topic.records := by
  induction infos generalizing topic with
  | nil => rfl
  | cons info infos ih =>
    rw [ObjectObserverTopic.wellKnownObjectsAddedOrUpdated, List.foldl_cons, List.foldl_cons]
    apply Eq.trans ih
    congr 1
    split
    · rfl
    · rename_i hcontains
      apply Lib.insertIfNew_eq_insert
      left
      apply ExtTreeMap.getElem?_eq_none
      rw [← ExtTreeMap.contains_iff_mem]
      exact hcontains

theorem records_removed :
    (topic.wellKnownObjectsRemoved infos).records =
      infos.foldl (fun records info => records.erase info.identity) topic.records := by
  induction infos generalizing topic with
  | nil => rfl
  | cons info infos ih => exact ih

theorem Consistent.addOrUpdateRegistryWellKnownObjects (h : Consistent db)
    (hs : db.addOrUpdateRegistryWellKnownObjects objects fails = .ok db') : Consistent db' := by
  obtain ⟨t, ht, hs⟩ := bind_ok hs
  obtain ⟨hsound, hobjects, hadapters⟩ := foldlM_objects
    (f := fun objects info => objects.insert info.identity info)
    (fun _ _ _ h hs => h.addOrUpdateWellKnownObject hs) h.tables (transaction_ok ht)
  cases hs
  refine ⟨hsound, h.adapterTopic.trans hadapters.symm, ?_⟩
  rw [records_addedOrUpdated, h.objectTopic]
  exact hobjects.symm

theorem Consistent.removeRegistryWellKnownObjects (h : Consistent db)
    (hs : db.removeRegistryWellKnownObjects objects fails = .ok db') : Consistent db' := by
  obtain ⟨t, ht, hs⟩ := bind_ok hs
  obtain ⟨hsound, hobjects, hadapters⟩ := foldlM_objects
    (f := fun objects info => objects.erase info.identity)
    (fun _ _ _ h hs => h.removeWellKnownObject hs) h.tables (transaction_ok ht)
  cases hs
  refine ⟨hsound, h.adapterTopic.trans hadapters.symm, ?_⟩
  rw [records_removed, h.objectTopic]
  exact hobjects.symm

/-- Objects are put that are new, or there already. -/
theorem Tables.Sound.addObjects (h : t.Sound)
    (hagrees : Lib.Agrees ObjectInfo.identity t.registered.objects infos)
    (hsame : ∀ a ∈ infos, ∀ b ∈ infos, a.identity = b.identity → a = b)
    (hs : infos.foldlM (fun t info => t.addObject info false) t = .ok t') : t'.Sound ∧
      t'.registered.objects = infos.foldl (fun objects info =>
        objects.insert info.identity info) t.registered.objects ∧ t'.adapters = t.adapters := by
  induction infos generalizing t with
  | nil =>
    cases hs
    exact ⟨h, rfl, rfl⟩
  | cons info infos ih =>
    rw [foldlM_cons] at hs
    obtain ⟨t₁, ht₁, hs⟩ := bind_ok hs
    have hsound := h.addObject ht₁ ((hagrees info mem_cons_self).imp_right
      fun hsome => ⟨info, hsome, rfl⟩)
    obtain ⟨-, rfl⟩ := Tables.addObject_ok ht₁
    apply ih hsound _ _ hs
    · apply hagrees.insert
      intro b hb
      exact hsame info mem_cons_self b (mem_cons_of_mem _ hb)
    · intro a ha b hb
      exact hsame a (mem_cons_of_mem _ ha) b (mem_cons_of_mem _ hb)

section

variable (h : Consistent db)

include h

theorem Consistent.syncObjects
    (hsame : ∀ a ∈ objects, ∀ b ∈ objects, a.identity = b.identity → a = b)
    (hs : db.syncObjects objects dbSerial fails = .ok db') : Consistent db' := by
  obtain ⟨t, serial, serials, hadd, hs⟩ := commit_ok hs
  cases hs
  have hempty : ({ db.tables with registered := {} } : Tables).Sound :=
    { h.tables with registered := .empty }
  obtain ⟨hsound, hobjects, hadapters⟩ := hempty.addObjects .empty hsame hadd
  refine ⟨hsound.serials, h.adapterTopic.trans hadapters.symm, ?_⟩
  exact (Lib.foldl_insertIfNew .empty hsame).trans hobjects.symm

/-- The topics do not know the internal objects. -/
theorem Consistent.setInternal {o : ObjectTables}
    (hsound : (db.tables.setObjectTables true o).Sound) :
    Consistent { db with tables := db.tables.setObjectTables true o } :=
  ⟨hsound, h.adapterTopic, h.objectTopic⟩

theorem Consistent.addInternalObject {replace : Bool}
    (hs : db.addInternalObject info replace fails = .ok db') : Consistent db' := by
  replace hs := (getIdentity_ok hs).2
  obtain ⟨t, ht, hs⟩ := bind_ok hs
  have hbody := transaction_ok ht
  cases hs
  split at hbody
  · rename_i old hold
    split at hbody
    · cases hbody
    · obtain ⟨rfl, hsound⟩ := h.tables.replaceObject true hold hbody
      exact h.setInternal hsound
  · rename_i hnone
    have hsound := h.tables.addObject hbody (.inl hnone)
    obtain ⟨-, rfl⟩ := Tables.addObject_ok hbody
    exact h.setInternal hsound

theorem Consistent.removeInternalObject {id : Ice.Identity}
    (hs : db.removeInternalObject id fails = .ok db') : Consistent db' := by
  rw [Database.removeInternalObject] at hs
  split at hs
  · cases hs
  · rename_i old hold
    obtain ⟨t, ht, hs⟩ := bind_ok hs
    cases transaction_ok ht
    cases hs
    exact h.setInternal (h.tables.deleteObject true hold)

end

end objects

theorem Consistent.step {db db' : Database} (h : Consistent db) {a : Operation × Bool}
    (ha : Careful db a) (hs : db.step a = some db') : Consistent db' := by
  obtain ⟨operation, fails⟩ := a
  rw [Database.step] at hs
  split at hs
  · rename_i db'' hperform
    cases hs
    cases operation with
    | setAdapterDirectProxy adapterId replicaGroupId proxy dbSerial =>
      exact h.setAdapterDirectProxy hperform
    | removeAdapter adapterId => exact h.removeAdapter hperform
    | syncAdapters adapters dbSerial => exact h.syncAdapters ha hperform
    | addObject info => exact h.addObject hperform
    | addOrUpdateObject info dbSerial => exact h.addOrUpdateObject ha hperform
    | removeObject id dbSerial => exact h.removeObject hperform
    | updateObject proxy => exact h.updateObject hperform
    | addOrUpdateRegistryWellKnownObjects objects =>
      exact h.addOrUpdateRegistryWellKnownObjects hperform
    | removeRegistryWellKnownObjects objects => exact h.removeRegistryWellKnownObjects hperform
    | syncObjects objects dbSerial => exact h.syncObjects ha hperform
    | addInternalObject info replace => exact h.addInternalObject hperform
    | removeInternalObject id => exact h.removeInternalObject hperform
    | applications adapterCache objectCache =>
      cases hperform
      exact ⟨h.tables, h.adapterTopic, h.objectTopic⟩
    | restart =>
      cases hperform
      exact ⟨h.tables, rfl, rfl⟩
  · cases hs
    exact h

theorem Consistent.initial : Consistent Database.initial where
  tables := ⟨.empty, .empty, .empty, .empty⟩
  adapterTopic := rfl
  objectTopic := rfl

/-- In a run in which `addOrUpdateObject` does not change an object, and records that are
synchronised have keys of their own, the indexes and the topics follow the tables. -/
theorem mirrored_of_careful (db : Database)
    (h : Lib.Reach Database.step Careful Database.initial db) : Mirrored db :=
  (h.invariant Consistent.initial fun _ _ _ hs ha ht => hs.step ha ht).mirrored

/-- An object with its address and its type -/
def printer (address type : String) : ObjectInfo where
  proxy := some ⟨⟨"printer", ""⟩, .twoway, address, by decide⟩
  type := type

/-- The object is added and updated with the operations of a master. -/
theorem mirrored_of_updateObject : ∃ db : Database,
    Lib.Reach Database.step Careful Database.initial db ∧
      (db.tables.registered.findByType "Printer").length = 1 ∧ Mirrored db := by
  have hrun : (Lib.run (fun db a => if decide (Careful db a) then Database.step db a else none)
      Database.initial [(.addObject (printer "old" "Printer"), false),
        (.updateObject (printer "new" "Printer").proxy, false),
        (.addOrUpdateObject (printer "new" "Printer") 3, false)]).any
      (fun db => decide ((db.tables.registered.findByType "Printer").length = 1)) = true := by
    decide +kernel
  obtain ⟨db, h, hdb⟩ := Lib.Reach.exists_of_runWhere (fun _ _ => of_decide_eq_true) hrun
  exact ⟨db, h, of_decide_eq_true hdb, mirrored_of_careful db h⟩

/-- On a slave, the pair of the old type stays. -/
theorem not_mirrored_of_addOrUpdateObject : ¬∀ db : Database,
    Lib.Reach Database.step Lib.Any Database.initial db → Mirrored db := by
  intro h
  have hrun : (Lib.run Database.step Database.initial
      [(.addOrUpdateObject (printer "old" "Printer") 2, false),
        (.addOrUpdateObject (printer "new" "ColorPrinter") 3, false)]).any
      (fun db => decide (("Printer", ⟨"printer", ""⟩) ∈ db.tables.registered.objectsByType ∧
        db.tables.registered.objects[(⟨"printer", ""⟩ : Ice.Identity)]? =
          some (printer "new" "ColorPrinter"))) = true := by decide +kernel
  obtain ⟨db, hreach, hdb⟩ := Lib.Reach.exists_of_run hrun
  obtain ⟨hpair, hobject⟩ := of_decide_eq_true hdb
  obtain ⟨info, hinfo, htype⟩ := ((h db hreach).types false "Printer" ⟨"printer", ""⟩).mp hpair
  cases hobject.symm.trans hinfo
  exact absurd htype (by decide)

end Ice.IceGrid.Persistence
