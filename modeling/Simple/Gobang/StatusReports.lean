import Simple.Gobang.GateWired
import Simple.Gobang.GateWire
import Simple.Gobang.MasterFlags

/-! What a gate reports of its own services to the gate master: all of them when it registers, and
one of them with every change. -/

namespace Simple.Gobang

open Simple.Lib

open GateMaster (Tells)

namespace MasterRequest

def notes : MasterRequest → List (Note UInt16 Bool)
  | register _ info => [.copy (collect (info.services.map ServiceInfo.entry))]
  | update _ services => services.map fun s => .put s.id.toUInt16 s.online
  | _ => []

/-- What a gate writes to a link after its registration -/
def Notice : MasterRequest → Prop
  | register _ _ => False
  | update _ services => ∃ info, services = [info]
  | _ => True

end MasterRequest

namespace Bindings

def localFlags (b : Bindings) : List (UInt16 × Bool) :=
  (b.services.filter Line.isLocal).map fun s => (s.id, s.online)

variable {b b' : Bindings} {i : ℕ} {x : UInt32} {online : Bool} {s : Line} {id : UInt16}

lemma mem_localFlags : (id, online) ∈ b.localFlags ↔
    ∃ (n : ℕ) (s : Line), b.services[n]? = some s ∧ s.isLocal = true ∧ s.id = id ∧
      s.online = online := by
  simp only [localFlags, List.mem_map, List.mem_filter, Prod.mk.injEq]
  constructor
  · rintro ⟨s, ⟨hs, hlocal⟩, hid, honline⟩
    obtain ⟨n, hn⟩ := List.mem_iff_getElem?.mp hs
    exact ⟨n, s, hn, hlocal, hid, honline⟩
  · rintro ⟨n, s, hn, hlocal, hid, honline⟩
    exact ⟨s, ⟨List.mem_of_getElem? hn, hlocal⟩, hid, honline⟩

lemma localFlags_ids : b.localFlags.map Prod.fst =
    ((b.services.map fun s => (s.id, s.isLocal)).filter Prod.snd).map Prod.fst := by
  simp [localFlags, List.filter_map, Function.comp_def]

lemma collect_localFlags_congr {j : UInt16} (hl : (b.localFlags.map Prod.fst).Nodup)
    (hl' : (b'.localFlags.map Prod.fst).Nodup)
    (hmem : ∀ v, (j, v) ∈ b'.localFlags ↔ (j, v) ∈ b.localFlags) :
    collect b'.localFlags j = collect b.localFlags j := by
  apply Option.ext
  intro v
  exact ⟨fun h => collect_of_mem hl ((hmem v).mp (mem_of_collect h)),
    fun h => collect_of_mem hl' ((hmem v).mpr (mem_of_collect h))⟩

lemma setService_ids :
    (b.setService i x online).localFlags.map Prod.fst = b.localFlags.map Prod.fst := by
  have hmap : (b.setService i x online).services.map (fun s => (s.id, s.isLocal)) =
      b.services.map fun s => (s.id, s.isLocal) := map_modify fun _ => rfl
  rw [localFlags_ids, localFlags_ids, hmap]

lemma getElem?_setService (n : ℕ) : (b.setService i x online).services[n]? =
    b.services[n]?.map fun t => if i = n then { t with socket := x, online := online } else t := by
  simp only [setService, List.getElem?_modify]
  split_ifs <;> rfl

lemma setService_flags (hl : (b.localFlags.map Prod.fst).Nodup) (hi : b.services[i]? = some s)
    (hlocal : s.isLocal = true) : collect (b.setService i x online).localFlags =
      Function.update (collect b.localFlags) s.id (some online) := by
  have hl' : ((b.setService i x online).localFlags.map Prod.fst).Nodup := by rwa [setService_ids]
  funext j
  by_cases hj : j = s.id
  · subst hj
    rw [Function.update_self]
    apply collect_of_mem hl'
    exact mem_localFlags.mpr ⟨i, { s with socket := x, online := online },
      by simp [getElem?_setService, hi], hlocal, rfl, rfl⟩
  · rw [Function.update_of_ne hj]
    apply collect_localFlags_congr hl hl'
    intro v
    rw [mem_localFlags, mem_localFlags]
    apply exists_congr
    intro n
    rw [getElem?_setService]
    by_cases hn : i = n
    · subst hn
      simp [hi, Ne.symm hj]
    · simp [hn]

lemma setService_flags_remote (hl : (b.localFlags.map Prod.fst).Nodup)
    (hi : ∀ s, b.services[i]? = some s → s.isLocal = false) :
    collect (b.setService i x online).localFlags = collect b.localFlags := by
  have hl' : ((b.setService i x online).localFlags.map Prod.fst).Nodup := by rwa [setService_ids]
  funext j
  apply collect_localFlags_congr hl hl'
  intro v
  rw [mem_localFlags, mem_localFlags]
  apply exists_congr
  intro n
  rw [getElem?_setService]
  by_cases hn : i = n
  · subst hn
    cases hs : b.services[i]? with
    | none => simp
    | some s => simp [hi s hs]
  · simp [hn]

lemma Told.localFlags {f : ℕ → Bool → Bool} (h : Told f b b')
    (hf : ∀ (i : ℕ) s, b.services[i]? = some s → s.isLocal = true → f i s.online = s.online)
    (hl : (b.localFlags.map Prod.fst).Nodup) (hl' : (b'.localFlags.map Prod.fst).Nodup) :
    collect b'.localFlags = collect b.localFlags := by
  funext j
  apply collect_localFlags_congr hl hl'
  intro v
  rw [mem_localFlags, mem_localFlags]
  constructor
  · rintro ⟨n, s', hn', hlocal, hid, honline⟩
    cases hn : b.services[n]? with
    | none => simp [h.new n s' hn hn'] at hlocal
    | some s =>
      obtain rfl := Option.some.inj ((h.known n s hn).symm.trans hn')
      refine ⟨n, s, hn, hlocal, hid, ?_⟩
      rw [← hf n s hn hlocal]
      exact honline
  · rintro ⟨n, s, hn, hlocal, hid, honline⟩
    refine ⟨n, _, h.known n s hn, hlocal, hid, ?_⟩
    rw [← honline]
    exact hf n s hn hlocal

end Bindings

lemma Shape.Grows.localIds {sh sh' : Shape} {R : Key → Prop} (hg : Shape.Grows R sh sh') :
    sh'.localIds = sh.localIds := by
  induction hg with
  | refl => rfl
  | add _ hremote _ _ ih => rw [ih, localIds_add, hremote, if_neg Bool.false_ne_true, List.append_nil]

namespace Gate

def localFlags (g : Gate) : UInt16 → Option Bool := collect g.bindings.localFlags

/-- No registration enters a service that is a local one already. -/
def EntersNew (g : Gate) : ℕ × Action → Prop
  | (_, .resume r) => ∀ reg, g.registrations[r]? = some reg → reg.upload = .done .success →
      reg.id ∉ g.localIds
  | _ => True

instance (g : Gate) : DecidablePred g.EntersNew
  | (_, .resume r) => inferInstanceAs (Decidable (∀ reg ∈ g.registrations[r]?,
      reg.upload = .done .success → reg.id ∉ g.localIds))
  | (_, .accept _) | (_, .register _ _ _) | (_, .subscribe _ _ _) | (_, .stop _) | (_, .expire _)
  | (_, .forward _ _) | (_, .connect _) | (_, .recv _) | (_, .registered) | (_, .ping)
  | (_, .lose) => .isTrue trivial

/-- What the gate writes meanwhile tells all that becomes of its local services. -/
def Reports (g g' : Gate) : Prop :=
  ∃ news, g'.outbox = g.outbox ++ news ∧ (∀ req ∈ news, req.Notice) ∧
    Carries g.localFlags (news.flatMap MasterRequest.notes) g'.localFlags

variable {g g' : Gate} {now : ℕ} {own : UInt16 → Option UInt16} {id : UInt16}

lemma localFlags_ids : g.bindings.localFlags.map Prod.fst = g.localIds := by
  simp [localIds, bindings, Bindings.localFlags, List.filter_map, Function.comp_def, Service.line]

lemma localFlags_congr (h : g'.bindings.services = g.bindings.services) :
    g'.localFlags = g.localFlags := by
  simp only [localFlags, Bindings.localFlags, h]

lemma localFlags_of_mem (hl : g.localIds.Nodup) {s : Service} (hs : s ∈ g.objects)
    (hlocal : s.isLocal = true) : g.localFlags s.id = some s.online := by
  obtain ⟨i, hi⟩ := List.mem_iff_getElem?.mp hs
  apply collect_of_mem (localFlags_ids ▸ hl)
  exact Bindings.mem_localFlags.mpr ⟨i, s.line, services_bindings hi, hlocal, rfl, rfl⟩

lemma mem_localIds {online : Bool} (h : g.localFlags id = some online) : id ∈ g.localIds := by
  rw [← localFlags_ids]
  exact List.mem_map_of_mem (mem_of_collect h)

lemma localFlags_eq_none (h : id ∉ g.localIds) : g.localFlags id = none := by
  cases hid : g.localFlags id with
  | none => rfl
  | some online => exact absurd (mem_localIds hid) h

lemma Stepped.nodup_localIds {a : ℕ × Action} (h : Stepped g a g') (hl : g.localIds.Nodup)
    (ha : g.EntersNew a) : g'.localIds.Nodup := by
  have hr := h.reshaped
  rw [localIds_eq] at hl ⊢
  generalize g'.shape = sh at hr
  cases hr with
  | resume hreg hdone =>
    rw [Shape.localIds_add, if_pos rfl]
    apply hl.append (List.nodup_singleton _)
    rw [List.disjoint_singleton, ← localIds_eq]
    exact ha _ hreg hdone
  | grow _ _ hsh => rwa [hsh.localIds]
  | same => exact hl

lemma Reports.same (hout : g'.outbox = g.outbox) (hflags : g'.localFlags = g.localFlags) :
    Reports g g' :=
  ⟨[], by rw [hout, List.append_nil], nofun, hflags ▸ .refl _⟩

lemma outbox_update (now : ℕ) {i : ℕ} {s : Service} (hs : g.objects[i]? = some s) (hgate : s.gate = g.id)
    (hsock : g.socket ≠ none) : ∃ session,
      (g.update now i).outbox = g.outbox ++ [.update session [s.toProto]] := by
  obtain ⟨link, hlink⟩ := Option.ne_none_iff_exists'.mp hsock
  have hpublish : ∀ g : Gate, (g.publish s).outbox = g.outbox :=
    fun g => congrArg Wire.outbox wire_publish
  simp only [update, hs, hpublish, upload, hlink, hgate, ne_eq, not_true_eq_false, if_false]
  exact ⟨_, rfl⟩

lemma getElem?_modifyObject {i : ℕ} {s : Service} {f : Service → Service}
    (hs : g.objects[i]? = some s) : (g.modifyObject i f).objects[i]? = some (f s) := by
  simp [modifyObject, hs]

lemma outbox_bind (now : ℕ) (session : UInt64) {conn i : ℕ} {ptr : LocalSocket} {s : Service}
    (hptr : g.conns[conn]? = some ptr) (hs : g.objects[i]? = some s) (hgate : s.gate = g.id)
    (hsock : g.socket ≠ none) : ∃ session', (g.bind now conn session i).outbox =
      g.outbox ++ [.update session' [⟨s.id.toUInt32, s.tp.toUInt32, true⟩]] := by
  obtain ⟨session', hout⟩ := outbox_update now (g := ({ g with
    conns := g.conns.set conn { ptr with service := some i } } : Gate).modifyObject i fun s =>
      { s with socket := ptr.socket, online := true })
    (getElem?_modifyObject hs) hgate hsock
  simp only [bind, hptr]
  exact ⟨session', hout⟩

lemma localFlags_bind {conn i : ℕ} {session : UInt64} {ptr : LocalSocket} {s : Service}
    (hl : g.localIds.Nodup) (hptr : g.conns[conn]? = some ptr) (hs : g.objects[i]? = some s)
    (hlocal : s.isLocal = true) : (g.bind now conn session i).localFlags =
      Function.update g.localFlags s.id (some true) := by
  rw [localFlags, bindings_bind hptr]
  exact Bindings.setService_flags (b := g.bindings) (localFlags_ids ▸ hl) (services_bindings hs)
    hlocal

lemma notes_update (session : UInt64) (s : Service) (tp : UInt32) (online : Bool) :
    (MasterRequest.update session [⟨s.id.toUInt32, tp, online⟩]).notes = [.put s.id online] := by
  simp [MasterRequest.notes]

lemma Reports.bind {conn i : ℕ} {session : UInt64} {ptr : LocalSocket} {s : Service}
    (hl : g.localIds.Nodup) (hptr : g.conns[conn]? = some ptr) (hs : g.objects[i]? = some s)
    (hlocal : s.isLocal = true) (hgate : s.gate = g.id) (hsock : g.socket ≠ none) :
    Reports g (g.bind now conn session i) := by
  obtain ⟨session', hout⟩ := outbox_bind now session hptr hs hgate hsock
  refine ⟨_, hout, ?_, ?_⟩
  · intro req hreq
    rw [List.mem_singleton.mp hreq]
    exact ⟨_, rfl⟩
  · rw [List.flatMap_singleton, notes_update, localFlags_bind hl hptr hs hlocal]
    exact carries_put

lemma Reports.answer {conn : ℕ} {session : UInt64} {ec : Ec} :
    Reports g (g.answer conn session ec) := by
  refine .same (congrArg Wire.outbox wire_answer) (localFlags_congr ?_)
  simp only [Gate.answer]
  split <;> rfl

variable {k : UInt16}

lemma key_of_object {i : ℕ} {s : Service} (hs : g.objects[i]? = some s) : s.key ∈ g.shape.keys :=
  List.mem_map_of_mem (List.mem_of_getElem? hs)

lemma not_mem_localIds (hk : g.shape.Indexed) (hid : g.services.get id = none) :
    id ∉ g.localIds := by
  intro hmem
  obtain ⟨s, hs, rfl⟩ := List.mem_map.mp hmem
  have hknown := hk.known s.key (List.mem_map_of_mem (List.mem_filter.mp hs).1)
  have hnone : g.shape.services.get s.key.id = none := hid
  simp [hnone] at hknown

lemma Reports.register (hk : Knows own g.id g.shape) (hl : g.localIds.Nodup)
    (hsock : g.socket ≠ none) {conn : ℕ} {session : UInt64} {req : RegisterRequest} :
    Reports g (g.serviceRegister now conn session req) := by
  simp only [serviceRegister]
  cases hptr : g.conns[conn]? with
  | none => exact .same rfl rfl
  | some ptr =>
    dsimp only
    split_ifs with hopen hid
    · exact .same rfl rfl
    · exact .answer
    · cases ptr.service with
      | some i =>
        dsimp only
        split_ifs <;> exact .answer
      | none =>
        cases hget : g.services.get req.info.id.toUInt16 with
        | none =>
          obtain ⟨link, hlink⟩ := Option.ne_none_iff_exists'.mp hsock
          simp only [upload, hlink]
          refine ⟨[_], rfl, ?_, ?_⟩
          · intro q hq
            rw [List.mem_singleton.mp hq]
            exact ⟨_, rfl⟩
          · exact carries_put_other (localFlags_eq_none (not_mem_localIds hk.indexed hget))
        | some i =>
          dsimp only
          split_ifs with hlocal
          · obtain ⟨s, hs, hs'⟩ := Option.map_eq_some_iff.mp hlocal
            exact .bind hl hptr hs hs' ((hk.here s.key (key_of_object hs)).mp hs') hsock
          · exact .answer

lemma Reports.stop (hk : Knows own g.id g.shape) (hl : g.localIds.Nodup) (hsock : g.socket ≠ none)
    {conn : ℕ} {ptr : LocalSocket} : Reports g (g.socketStop now conn ptr) := by
  have hids := localFlags_ids ▸ hl
  cases hservice : ptr.service with
  | none =>
    refine .same ?_ (localFlags_congr ?_) <;> simp only [socketStop, hservice]
    rfl
  | some i =>
    by_cases hsame : g.objects[i]?.map Service.socket = some ptr.socket
    · obtain ⟨s, hs, -⟩ := Option.map_eq_some_iff.mp hsame
      have hout : (g.socketStop now conn ptr).outbox = ((g.modifyObject i fun s =>
          { s with socket := 0, online := false }).update now i).outbox := by
        simp only [socketStop, hservice, if_pos hsame]
      have hflags : (g.socketStop now conn ptr).localFlags =
          collect (g.bindings.setService i 0 false).localFlags := by
        have hsock' : g.bindings.services[i]?.map Line.socket = some ptr.socket := by
          simpa [bindings, hs, Service.line] using hsame
        simp only [localFlags, bindings_socketStop, Bindings.stop, hservice, if_pos hsock']
        rfl
      have hmodified := getElem?_modifyObject (f := fun s => { s with socket := 0, online := false }) hs
      cases hlocal : s.isLocal with
      | true =>
        have hgate := (hk.here s.key (key_of_object hs)).mp hlocal
        obtain ⟨session, hnew⟩ := outbox_update now hmodified hgate hsock
        refine ⟨_, hout.trans hnew, ?_, ?_⟩
        · intro req hreq
          rw [List.mem_singleton.mp hreq]
          exact ⟨_, rfl⟩
        · rw [List.flatMap_singleton, hflags,
            Bindings.setService_flags hids (services_bindings hs) hlocal]
          simp only [Service.toProto, notes_update]
          exact carries_put
      | false =>
        apply Reports.same
        · rw [hout]
          refine congrArg Wire.outbox (wire_update_remote ?_)
          intro s' hs' hgate
          obtain rfl := Option.some.inj (hmodified.symm.trans hs')
          have htrue : s.isLocal = true := (hk.here s.key (key_of_object hs)).mpr hgate
          simp [hlocal] at htrue
        · rw [hflags]
          apply Bindings.setService_flags_remote hids
          intro s' hs'
          obtain rfl := Option.some.inj ((services_bindings hs).symm.trans hs')
          exact hlocal
    · refine .same ?_ (localFlags_congr ?_) <;> simp only [socketStop, hservice, if_neg hsame]
      rfl

lemma localFlags_addLocalService {req : RegisterRequest} : (g.addLocalService req).localFlags =
    Function.update g.localFlags req.info.id.toUInt16 (some false) := by
  rw [localFlags, bindings_addLocalService, localFlags, ← collect_concat]
  simp only [Bindings.localFlags, Bindings.add, List.filter_append, List.map_append]
  rfl

lemma object_addLocalService (g : Gate) (req : RegisterRequest) :
    ∃ s, (g.addLocalService req).objects[g.objects.length]? = some s ∧
      s.key = ⟨req.info.id.toUInt16, req.info.tp.toUInt16, g.id, true⟩ := by
  have hkey : (g.addLocalService req).shape.keys[g.objects.length]? =
      some ⟨req.info.id.toUInt16, req.info.tp.toUInt16, g.id, true⟩ := by
    rw [shape_addLocalService]
    simp [Shape.add, shape]
  rw [shape, List.getElem?_map] at hkey
  exact Option.map_eq_some_iff.mp hkey

lemma Reports.enter (hl : g.localIds.Nodup) (hsock : g.socket ≠ none) {conn : ℕ} {session : UInt64}
    {req : RegisterRequest} (hconn : conn < g.conns.length)
    (hnew : req.info.id.toUInt16 ∉ g.localIds) :
    Reports g ((g.addLocalService req).bind now conn session g.objects.length) := by
  have hwire : (g.addLocalService req).wire = g.wire := wire_addLocalService
  obtain ⟨s, hs, hkey⟩ := object_addLocalService g req
  obtain ⟨ptr, hptr⟩ : ∃ ptr, (g.addLocalService req).conns[conn]? = some ptr := by
    obtain ⟨_, _, _, _, _, hframe⟩ := addLocalService_frame req g
    rw [hframe]
    exact ⟨_, List.getElem?_eq_getElem hconn⟩
  have hid : s.id = req.info.id.toUInt16 := congrArg Key.id hkey
  have hgate : s.gate = (g.addLocalService req).id :=
    (congrArg Key.gate hkey).trans (congrArg Wire.id hwire).symm
  have hlocal : s.isLocal = true := congrArg Key.isLocal hkey
  have hsock' : (g.addLocalService req).socket ≠ none := by
    rwa [show (g.addLocalService req).socket = g.socket from congrArg Wire.socket hwire]
  have hl' : (g.addLocalService req).localIds.Nodup := by
    rw [localIds_eq, shape_addLocalService, Shape.localIds_add, if_pos rfl, ← localIds_eq]
    apply hl.append (List.nodup_singleton _)
    rwa [List.disjoint_singleton]
  obtain ⟨session', hout⟩ := outbox_bind now session hptr hs hgate hsock'
  refine ⟨_, hout.trans (congrArg (· ++ _) (congrArg Wire.outbox hwire)), ?_, ?_⟩
  · intro q hq
    rw [List.mem_singleton.mp hq]
    exact ⟨_, rfl⟩
  · rw [List.flatMap_singleton, notes_update, localFlags_bind hl' hptr hs hlocal,
      localFlags_addLocalService, hid, Function.update_idem]
    exact carries_put

lemma Reports.resume (hl : g.localIds.Nodup) (hsock : g.socket ≠ none) {r : ℕ}
    {reg : Registration} {ec : Ec} (hconn : reg.conn < g.conns.length)
    (hnew : ec = .success → reg.id ∉ g.localIds) : Reports g (g.resume now r reg ec) := by
  simp only [Gate.resume]
  split_ifs with hec
  · exact Reports.answer (g := { g with registrations := g.registrations.eraseIdx r })
  · exact Reports.enter (g := { g with registrations := g.registrations.eraseIdx r }) hl hsock
      hconn (hnew (not_not.mp hec))

lemma told_local (hk : Knows own g.id g.shape) {gates : List GateInfo}
    (hgates : ∀ info ∈ gates, Tells own g.id info) {i : ℕ} {s : Service}
    (hs : g.objects[i]? = some s) (hlocal : s.isLocal = true) :
    g.told (gates.flatMap GateInfo.services) i s.online = s.online := by
  have hother : ∀ info ∈ gates.flatMap GateInfo.services,
      g.services.get info.id.toUInt16 ≠ some i := by
    intro info hinfo hget
    obtain ⟨gate, hgate, hmem⟩ := List.mem_flatMap.mp hinfo
    obtain ⟨hne, hown⟩ := hgates gate hgate
    obtain ⟨key, hkey, hid⟩ := hk.indexed.found _ i hget
    have hkey' : s.key = key := by
      simpa [shape, hs] using hkey
    have howned := hk.owned s.key (key_of_object hs)
    rw [(hk.here s.key (key_of_object hs)).mp hlocal, hkey', hid, hown info hmem] at howned
    exact hne (Option.some.inj howned)
  generalize gates.flatMap GateInfo.services = infos at hother
  generalize s.online = online
  induction infos with
  | nil => rfl
  | cons info infos ih =>
    rw [told, List.foldl_cons, if_neg (hother info (by simp))]
    exact ih fun info' hinfo' => hother info' (by simp [hinfo'])

lemma Reports.remote (now : ℕ) (hk : Knows own g.id g.shape) (hl : g.localIds.Nodup) {gates : List GateInfo}
    (hgates : ∀ info ∈ gates, Tells own g.id info) :
    Reports g (gates.foldl (addRemoteGate now) g) := by
  have hl' : (gates.foldl (addRemoteGate now) g).localIds.Nodup := by
    rwa [localIds_eq, addRemoteGates_grows.localIds, ← localIds_eq]
  refine .same (congrArg Wire.outbox (wire_addRemoteGates hk hgates)) ?_
  apply addRemoteGates_told.localFlags _ (localFlags_ids ▸ hl) (localFlags_ids ▸ hl')
  intro i s hs hlocal
  rw [bindings, List.getElem?_map] at hs
  obtain ⟨service, hservice, rfl⟩ := Option.map_eq_some_iff.mp hs
  exact told_local hk hgates hservice hlocal

lemma notes_register (session : UInt64) (id : UInt32) (addresses : List GateAddress) :
    (MasterRequest.register session ⟨id, g.localServices, addresses⟩).notes =
      [.copy g.localFlags] := by
  have hentries : g.localServices.map ServiceInfo.entry = g.bindings.localFlags := by
    simp [localServices, bindings, Bindings.localFlags, List.filter_map, Function.comp_def,
      Service.toProto, Service.line, ServiceInfo.entry]
  rw [MasterRequest.notes, hentries, localFlags]

lemma Stepped.reports {a : Action} (h : Stepped g (now, a) g') (hg : Sound own g) (hw : Wired g)
    (hl : g.localIds.Nodup) (ha : g.EntersNew (now, a))
    (hmsg : ∀ msg, a = .recv msg → g.wire.Hears own msg) (hsock : g.socket ≠ none)
    (hsock' : g'.socket ≠ none) : Reports g g' := by
  cases h with
  | accept => exact .same rfl rfl
  | register => exact .register hg.knows hl hsock
  | @subscribe _ conn session tp =>
    refine .same ?_ (by rw [localFlags, bindings_serviceSubscribe]; rfl)
    simp only [serviceSubscribe]
    split
    · rfl
    · split_ifs <;> rfl
  | stop => exact .stop hg.knows hl hsock
  | resume hreg hdone =>
    apply Reports.resume hl hsock (hw.waiting _ (List.mem_of_getElem? hreg))
    rintro rfl
    exact ha _ hreg hdone
  | expire => exact Reports.answer (g := { g with registrations := g.registrations.eraseIdx _ })
  | @forward _ dest msg =>
    refine .same ?_ (by rw [localFlags, bindings_forward]; rfl)
    simp only [Gate.forward]
    split <;> rfl
  | connect hs => exact absurd hs hsock
  | @recvOneMessage _ session msg =>
    refine .same ?_ (by rw [localFlags, bindings_recvOneMessage]; rfl)
    cases msg with
    | registerAck session' ec gates =>
      simp only [Gate.recvOneMessage]
      split_ifs <;> rfl
    | _ => rfl
  | @forwardMessage _ msg =>
    cases msg with
    | registerBrd gates => exact .remote now hg.knows hl (hmsg _ rfl).tells
    | updateAck session ec =>
      simp only [Gate.forwardMessage]
      split_ifs <;> exact .same rfl rfl
    | _ => exact .same rfl rfl
  | @registered _ ec gates hphase =>
    revert hsock'
    simp only [registerToMaster]
    split_ifs with hec
    · exact fun hsock' => absurd rfl hsock'
    · intro _
      exact Reports.remote now hg.knows hl (hg.heard.answer ec gates hphase)
  | ping => exact ⟨[_], rfl, by simp [MasterRequest.Notice], Carries.refl _⟩
  | lose => exact absurd rfl hsock'

end Gate

end Simple.Gobang
