import Simple.Gobang.GateWired

/-! Every step of a gate, as a connection hears of it. -/

namespace Simple.Gobang

open Simple.Lib

namespace Gate

variable {g g' : Gate} {now : ℕ} {x : UInt32} {tp : UInt16}

lemma hears_bind {conn i : ℕ} {session : UInt64} {ptr : LocalSocket} {s : Service}
    (hptr : g'.conns[conn]? = some ptr) (hobj : g'.objects[i]? = some s)
    (hsent : g'.sent = g.sent) (hheeds : g'.Heeds x tp ↔ g.Heeds x tp)
    (hflags : g.Listed tp → ∀ h : Gate, h.shape = g'.shape →
      h.bindings.services = g'.bindings.services.modify i
        (fun t => { t with socket := ptr.socket, online := true }) →
      h.flags tp = if s.tp = tp then Function.update (g.flags tp) s.id (some true)
        else g.flags tp) :
    ∃ more, Hears x tp g (g'.bind now conn session i) more := by
  simp only [bind, hptr]
  refine ⟨_, Hears.overlook (hears_update (s := { s with socket := ptr.socket, online := true })
    ?_ ?_ ?_ ?_) (overlooks_send (.inr rfl))⟩
  · simp [modifyObject, hobj]
  · exact hsent
  · refine Iff.trans ?_ hheeds
    exact heeds_congr rfl (map_set hptr rfl)
  · intro hl
    apply hflags hl
    · exact shape_modifyObject fun _ => rfl
    · rw [bindings_setService]
      rfl

lemma overlooks_disconnect {conn : ℕ} {ptr : LocalSocket} (hptr : g.conns[conn]? = some ptr)
    (hx : ptr.socket ≠ x) (hx0 : x ≠ 0) : Overlooks x tp g { g with
      subscribeInfos := ptr.subscribe.foldl
        (fun infos tp => infos.modify tp fun conns => swapRemove conns conn) g.subscribeInfos
      conns := g.conns.set conn { ptr with service := none, socket := 0 } } [] := by
  refine .of_frame rfl rfl ?_
  have hlt := (List.getElem?_eq_some_iff.mp hptr).1
  constructor
  · rintro ⟨c, hc, hcx⟩
    have hne : c ≠ conn := by
      rintro rfl
      simp only [List.getElem?_set, if_true, hlt, Option.map_some, Option.some.injEq] at hcx
      exact hx0 hcx.symm
    rw [List.getElem?_set_ne hne.symm] at hcx
    exact ⟨c, (mem_foldl_swapRemove hne).mp hc, hcx⟩
  · rintro ⟨c, hc, hcx⟩
    have hne : c ≠ conn := by
      rintro rfl
      rw [hptr] at hcx
      exact hx (Option.some.inj hcx)
    refine ⟨c, (mem_foldl_swapRemove hne).mpr hc, ?_⟩
    rw [List.getElem?_set_ne hne.symm]
    exact hcx

lemma hears_socketStop {conn : ℕ} {ptr : LocalSocket} (ht : g.shape.Typed)
    (hptr : g.conns[conn]? = some ptr) (hx : ptr.socket ≠ x) (hx0 : x ≠ 0) :
    ∃ more, Hears x tp g (g.socketStop now conn ptr) more := by
  have hsame : ∃ more, Hears x tp g { g with
      subscribeInfos := ptr.subscribe.foldl
        (fun infos tp => infos.modify tp fun conns => swapRemove conns conn) g.subscribeInfos
      conns := g.conns.set conn { ptr with service := none, socket := 0 } } more :=
    ⟨[], (overlooks_disconnect hptr hx hx0).hears⟩
  simp only [socketStop]
  split
  · exact hsame
  · next i _ =>
    split_ifs with hsocket
    · obtain ⟨s, hobj, -⟩ := Option.map_eq_some_iff.mp hsocket
      have hobj' : (g.modifyObject i fun s => { s with socket := 0, online := false }).objects[i]? =
          some { s with socket := 0, online := false } := by
        simp [modifyObject, hobj]
      have hflags : g.Listed tp →
          (g.modifyObject i fun s => { s with socket := 0, online := false }).flags tp =
            if s.tp = tp then Function.update (g.flags tp) s.id (some false) else g.flags tp := by
        intro hl
        refine flags_modify ht hl hobj (shape_modifyObject fun _ => rfl) ?_ ?_
          (congrArg Bindings.services bindings_setService)
        · exact fun _ => rfl
        · exact fun _ => rfl
      refine ⟨_, Hears.overlook (hears_update hobj' rfl Iff.rfl hflags)
        (overlooks_disconnect ?_ hx hx0)⟩
      obtain ⟨rpc, outbox, hupdate⟩ := update_frame now hobj'
      rw [hupdate]
      exact hptr
    · exact hsame

lemma hears_answer {conn : ℕ} {session : UInt64} {ec : Ec} :
    ∃ more, Hears x tp g (g.answer conn session ec) more := by
  simp only [answer]
  split
  · exact hears_refl g
  · exact ⟨_, (overlooks_send (.inr rfl)).hears⟩

lemma hears_erase_answer {r conn : ℕ} {session : UInt64} {ec : Ec} : ∃ more, Hears x tp g
    (answer { g with registrations := g.registrations.eraseIdx r } conn session ec) more := by
  have hfirst : Overlooks x tp g { g with registrations := g.registrations.eraseIdx r } [] :=
    .of_frame rfl rfl Iff.rfl
  obtain ⟨more, h⟩ := hears_answer
  exact ⟨_, hfirst.before h⟩

lemma hears_serviceRegister {conn : ℕ} {session : UInt64} {req : RegisterRequest}
    (ht : g.shape.Typed) :
    ∃ more, Hears x tp g (g.serviceRegister now conn session req) more := by
  simp only [serviceRegister]
  split
  · exact hears_refl g
  · next ptr hptr =>
    split_ifs
    · exact hears_refl g
    · exact hears_answer
    · split
      · split_ifs <;> exact hears_answer
      · split
        · refine hears_frame ?_ ?_ ?_
          · simp only [upload]
            split <;> rfl
          · exact listing_congr shape_upload (congrArg Bindings.services bindings_upload)
          · simp only [upload]
            split <;> exact Iff.rfl
        · next i _ =>
          split_ifs with hlocal
          · obtain ⟨s, hobj, -⟩ := Option.map_eq_some_iff.mp hlocal
            refine hears_bind hptr hobj rfl Iff.rfl ?_
            intro hl h hshape hservices
            refine flags_modify ht hl hobj hshape ?_ ?_ hservices
            · exact fun _ => rfl
            · exact fun _ => rfl
          · exact hears_answer

lemma exists_object_of_shape {k : Key} (hshape : g'.shape = g.shape.add k) :
    ∃ s, g'.objects[g.objects.length]? = some s ∧ s.key = k := by
  have hkey : g'.shape.keys[g.objects.length]? = some k := by
    rw [hshape]
    simp [Shape.add, shape]
  simpa [shape, Option.map_eq_some_iff] using hkey

lemma hears_resume {r : ℕ} {reg : Registration} {ec : Ec} (ht : g.shape.Typed)
    (hconn : reg.conn < g.conns.length) : ∃ more, Hears x tp g (g.resume now r reg ec) more := by
  simp only [resume]
  split_ifs
  · exact hears_erase_answer
  · have hshape : (addLocalService { g with registrations := g.registrations.eraseIdx r }
        reg.req).shape = g.shape.add _ := shape_addLocalService
    have hbindings : (addLocalService { g with registrations := g.registrations.eraseIdx r }
        reg.req).bindings = g.bindings.add _ := bindings_addLocalService
    obtain ⟨s, hobj, hkey⟩ := exists_object_of_shape hshape
    obtain ⟨_, _, _, _, _, hframe⟩ := addLocalService_frame reg.req
      { g with registrations := g.registrations.eraseIdx r }
    have hptr : (addLocalService { g with registrations := g.registrations.eraseIdx r }
        reg.req).conns[reg.conn]? = some g.conns[reg.conn] := by
      rw [hframe]
      exact List.getElem?_eq_getElem hconn
    refine hears_bind hptr hobj ?_ ?_ ?_
    · rw [hframe]
    · rw [hframe]
      exact Iff.rfl
    · intro _ h hshape' hservices
      rw [hbindings] at hservices
      rw [hshape] at hshape'
      have hid : s.id = reg.req.info.id.toUInt16 := congrArg Key.id hkey
      have htp : s.tp = reg.req.info.tp.toUInt16 := congrArg Key.tp hkey
      have hlen : g.objects.length = g.bindings.services.length := by simp [bindings]
      rw [hlen, Bindings.add, modify_concat] at hservices
      rw [hid, htp]
      exact flags_add ht rfl hshape' hservices

lemma hears_addRemoteService (h : UInt16) (now : ℕ) (info : ServiceInfo) (hidx : g.shape.Indexed)
    (ht : g.shape.Typed) :
    ∃ more, Hears x tp g (addRemoteService h now g info) more := by
  cases hget : g.services.get info.id.toUInt16 with
  | some i =>
    have hfound : remoteService h g info = (g, i) := by simp only [remoteService, hget]
    obtain ⟨k, hk, -⟩ := hidx.found _ _ hget
    simp only [shape, List.getElem?_map, Option.map_eq_some_iff] at hk
    obtain ⟨s, hobj, -⟩ := hk
    rw [addRemoteService, hfound]
    refine ⟨_, hears_update (s := { s with online := info.online }) ?_ rfl Iff.rfl ?_⟩
    · simp [modifyObject, hobj]
    · intro hl
      refine flags_modify (s := s) ht hl hobj (shape_modifyObject fun _ => rfl) ?_ ?_
        (congrArg Bindings.services (bindings_modifyObject (k := fun t =>
          { t with online := info.online }) fun _ => rfl))
      · exact fun _ => rfl
      · exact fun _ => rfl
  | none =>
    have hshape := remoteService_shape (h := h) hget
    have hservices := remoteService_services (h := h) hget
    have hsnd : (remoteService h g info).2 = g.objects.length := by
      simp only [remoteService, hget]
    obtain ⟨s, hobj, hkey⟩ := exists_object_of_shape hshape
    obtain ⟨_, _, _, _, hframe⟩ := remoteService_frame h g info
    rw [addRemoteService, hsnd]
    refine ⟨_, hears_update (s := { s with online := info.online }) ?_ ?_ ?_ ?_⟩
    · simp [modifyObject, hobj]
    · rw [hframe]
      rfl
    · rw [hframe]
      exact Iff.rfl
    · intro _
      have hid : s.id = info.id.toUInt16 := congrArg Key.id hkey
      have htp : s.tp = info.tp.toUInt16 := congrArg Key.tp hkey
      have hlen : g.objects.length = g.bindings.services.length := by simp [bindings]
      have hshape' : ((remoteService h g info).1.modifyObject g.objects.length fun s =>
          { s with online := info.online }).shape =
          g.shape.add ⟨info.id.toUInt16, info.tp.toUInt16, h, false⟩ := by
        rw [shape_modifyObject]
        · exact hshape
        · exact fun _ => rfl
      simp only [hid, htp]
      refine flags_add (s := { id := info.id.toUInt16, isLocal := false, online := info.online })
        ht rfl hshape' ?_
      rw [bindings_modifyObject (k := fun t => { t with online := info.online }) fun _ => rfl,
        hservices, hlen, modify_concat]

lemma hears_addRemoteServices (h : UInt16) (now : ℕ) (infos : List ServiceInfo) (g : Gate)
    (hidx : g.shape.Indexed) (ht : g.shape.Typed) :
    ∃ more, Hears x tp g (infos.foldl (addRemoteService h now) g) more := by
  induction infos generalizing g with
  | nil => exact hears_refl g
  | cons info infos ih =>
    obtain ⟨more, hfirst⟩ := hears_addRemoteService h now info hidx ht
    have hgrows : Shape.Grows _ g.shape (addRemoteService h now g info).shape :=
      addRemoteService_grows
    obtain ⟨more', hrest⟩ := ih (addRemoteService h now g info) (hgrows.indexed hidx)
      (hgrows.typed ht)
    exact ⟨_, hfirst.trans hrest (listed_of_grows hgrows hidx)⟩

lemma hears_addRemoteGates (now : ℕ) (gates : List GateInfo) (g : Gate) (hidx : g.shape.Indexed)
    (ht : g.shape.Typed) :
    ∃ more, Hears x tp g (gates.foldl (addRemoteGate now) g) more := by
  induction gates generalizing g with
  | nil => exact hears_refl g
  | cons info gates ih =>
    have hframe : Overlooks x tp g { g with
        remoteGates := g.remoteGates.set info.id.toUInt16
          (info.addresses.map fun a => a.host ++ "," ++ a.port) } [] :=
      .of_frame rfl rfl Iff.rfl
    obtain ⟨more, hfirst⟩ := hears_addRemoteServices (x := x) info.id.toUInt16 now info.services
      { g with
        remoteGates := g.remoteGates.set info.id.toUInt16
          (info.addresses.map fun a => a.host ++ "," ++ a.port) } hidx ht
    have hgrows : Shape.Grows _ g.shape (addRemoteGate now g info).shape := addRemoteGate_grows
    obtain ⟨more', hrest⟩ := ih (addRemoteGate now g info) (hgrows.indexed hidx)
      (hgrows.typed ht)
    exact ⟨_, (hframe.before hfirst).trans hrest (listed_of_grows hgrows hidx)⟩

lemma hears_serviceSubscribe {conn : ℕ} {session : UInt64} {tp' : UInt16}
    (hx : g.conns[conn]?.map LocalSocket.socket ≠ some x) :
    ∃ more, Hears x tp g (g.serviceSubscribe conn session tp') more := by
  simp only [serviceSubscribe]
  split
  · exact hears_refl g
  · next ptr hptr =>
    have hne : ptr.socket ≠ x := by
      rintro rfl
      exact hx (by rw [hptr, Option.map_some])
    split
    · exact ⟨_, (overlooks_send (.inl hne)).hears⟩
    · refine ⟨_, Overlooks.before (.of_frame ?_ ?_ ?_) (overlooks_send (.inl hne)).hears⟩
      · rfl
      · rfl
      have hconns : ∀ l, (g.conns.set conn { ptr with subscribe := l }).map LocalSocket.socket =
          g.conns.map LocalSocket.socket := fun l => map_set hptr rfl
      simp only [Heeds, ← List.getElem?_map, hconns, Table.get_set]
      split_ifs with htp hmem
      · rw [htp, Option.getD_some]
      · rw [htp, Option.getD_some]
        constructor
        · rintro ⟨c, hc, hcx⟩
          rcases List.mem_append.mp hc with hc | hc
          · exact ⟨c, hc, hcx⟩
          · obtain rfl := List.mem_singleton.mp hc
            exact absurd (by simpa using hcx) hx
        · rintro ⟨c, hc, hcx⟩
          exact ⟨c, List.mem_append_left _ hc, hcx⟩
      · rfl

lemma overlooks_accept {y : UInt32} (hy : y ≠ x) :
    Overlooks x tp g { g with conns := g.conns ++ [{ socket := y }] } [] := by
  refine .of_frame rfl rfl ?_
  constructor
  · rintro ⟨c, hc, hcx⟩
    refine ⟨c, hc, ?_⟩
    simp only [List.getElem?_append] at hcx
    split_ifs at hcx with hlt
    · exact hcx
    · obtain ⟨ptr, hptr, rfl⟩ := Option.map_eq_some_iff.mp hcx
      obtain rfl := List.mem_singleton.mp (List.mem_of_getElem? hptr)
      exact absurd rfl hy
  · rintro ⟨c, hc, hcx⟩
    refine ⟨c, hc, ?_⟩
    obtain ⟨ptr, hptr, hsocket⟩ := Option.map_eq_some_iff.mp hcx
    have hlt := (List.getElem?_eq_some_iff.mp hptr).1
    simp only [List.getElem?_append_left hlt, hptr, Option.map_some, hsocket]

lemma Reshaped.typed {a : ℕ × Action} {sh : Shape} (hr : Reshaped g a sh) (h : g.shape.Typed) :
    sh.Typed := by
  cases hr with
  | resume => exact h.add _
  | grow _ _ hsh => exact hsh.typed h
  | same => exact h

lemma Stepped.hears {a : ℕ × Action} {conn : ℕ} (h : Stepped g a g') (hidx : g.shape.Indexed)
    (ht : g.shape.Typed) (hs : g.bindings.Sound) (hw : Wired g) (hx : x ≠ 0)
    (hconn : g.socketOf conn = some x) (hconn' : g'.socketOf conn = some x)
    (hown : ∀ session tp', a.2 ≠ .subscribe conn session tp') : ∃ more, Hears x tp g g' more := by
  cases h with
  | accept _ hfree =>
    refine ⟨_, (overlooks_accept ?_).hears⟩
    rintro rfl
    obtain ⟨ptr, hptr, hsocket⟩ := Option.map_eq_some_iff.mp hconn
    exact hfree (List.mem_map.mpr ⟨ptr, List.mem_of_getElem? hptr, hsocket⟩)
  | register => exact hears_serviceRegister ht
  | @subscribe now c session tp' =>
    apply hears_serviceSubscribe
    intro hc
    obtain rfl := eq_of_socketOf hs hx hconn hc
    exact hown session tp' rfl
  | @stop now c ptr hptr hopen =>
    refine hears_socketStop ht hptr ?_ hx
    rintro rfl
    obtain rfl := eq_of_socketOf hs hx hconn (by rw [socketOf, hptr, Option.map_some])
    rw [socketOf_socketStop hptr] at hconn'
    exact hx (Option.some.inj hconn').symm
  | resume hreg => exact hears_resume ht (hw.waiting _ (List.mem_of_getElem? hreg))
  | expire => exact hears_erase_answer
  | forward =>
    refine hears_frame ?_ (listing_congr shape_forward (congrArg _ bindings_forward)) ?_
    · simp only [Gate.forward]
      split <;> rfl
    · simp only [Gate.forward]
      split <;> exact Iff.rfl
  | connect => exact hears_frame rfl rfl Iff.rfl
  | @recvOneMessage now session msg =>
    cases msg with
    | registerAck session' ec gates =>
      simp only [Gate.recvOneMessage]
      split_ifs <;> exact hears_frame rfl rfl Iff.rfl
    | _ => exact hears_frame rfl rfl Iff.rfl
  | @forwardMessage now msg =>
    cases msg with
    | registerBrd gates => exact hears_addRemoteGates now gates g hidx ht
    | updateAck session ec =>
      simp only [Gate.forwardMessage]
      split_ifs
      · exact hears_refl g
      · exact hears_frame rfl rfl Iff.rfl
    | _ => exact hears_refl g
  | @registered now ec gates =>
    simp only [registerToMaster]
    split_ifs
    · exact hears_frame rfl rfl Iff.rfl
    · obtain ⟨more, hgates⟩ := hears_addRemoteGates (x := x) now gates g hidx ht
      exact ⟨_, hgates.overlook (.of_frame rfl rfl Iff.rfl)⟩
  | ping => exact hears_frame rfl rfl Iff.rfl
  | lose => exact hears_frame rfl rfl Iff.rfl

lemma serviceSubscribe_cases {conn : ℕ} (session : UInt64) (ht : g.shape.Typed)
    (hconn : g.socketOf conn = some x) :
    (∃ more, Hears x tp g (g.serviceSubscribe conn session tp) more) ∨
      ∃ more, (g.serviceSubscribe conn session tp).sent = g.sent ++ more ∧
        heard x tp more = [.copy (g.flags tp)] ∧
        (g.serviceSubscribe conn session tp).flags tp = g.flags tp ∧
        (g.serviceSubscribe conn session tp).Heeds x tp := by
  obtain ⟨ptr, hptr, rfl⟩ := Option.map_eq_some_iff.mp hconn
  have hlt := (List.getElem?_eq_some_iff.mp hptr).1
  simp only [serviceSubscribe, hptr]
  split
  · exact .inl ⟨_, (overlooks_send (.inr rfl)).hears⟩
  · refine .inr ⟨_, rfl, ?_, rfl, ?_⟩
    · have hentries : ServiceInfo.entries tp (((g.serviceTypes.get tp).getD []).filterMap fun i =>
          g.objects[i]?.map Service.toProto) = g.listing tp := by
        rw [ServiceInfo.entries, List.filterMap_filterMap, listing]
        apply List.filterMap_congr
        intro i hi
        obtain ⟨k, hk, hktp⟩ := ht.own tp i hi
        cases hobj : g.objects[i]? with
        | none => rfl
        | some s =>
          obtain rfl := Option.some.inj ((keys_shape hobj).symm.trans hk)
          have htp : s.tp = tp := hktp
          simp [Service.toProto, htp]
      simp [heard, LocalMessage.notes, hentries, flags]
    · refine ⟨conn, ?_, ?_⟩
      · simp only [send, Table.get_set_self, Option.getD_some]
        split_ifs with hmem
        · exact hmem
        · exact List.mem_append_right _ (List.mem_singleton_self conn)
      · simp [send, hlt]

lemma heeds_serviceSubscribe {conn : ℕ} {session : UInt64} {tp' : UInt16} (h : tp ≠ tp') :
    (g.serviceSubscribe conn session tp').Heeds x tp ↔ g.Heeds x tp := by
  simp only [serviceSubscribe]
  split
  · rfl
  · next ptr hptr =>
    have hconns : ∀ l, (g.conns.set conn { ptr with subscribe := l }).map LocalSocket.socket =
        g.conns.map LocalSocket.socket := fun l => map_set hptr rfl
    split
    · rfl
    · simp only [Heeds, send, ← List.getElem?_map, hconns, Table.get_set_ne h]

lemma Stepped.socketOf {a : ℕ × Action} {conn : ℕ} (h : Stepped g a g') (hx : x ≠ 0)
    (hlt : conn < g.conns.length) (hconn : g'.socketOf conn = some x) :
    g.socketOf conn = some x := by
  have hlt' : conn < g.bindings.conns.length := by simpa [bindings] using hlt
  have hset : ∀ (b : Bindings) (c : ℕ) (y : UInt32) (o : Option ℕ) (z : UInt32) (q : Option ℕ),
      b.conns[c]? = some (y, o) → z = 0 ∨ z = y →
      (b.setConn c z q).conns[conn]?.map Prod.fst = some x →
      b.conns[conn]?.map Prod.fst = some x := by
    intro b c y o z q hc hz hget
    simp only [Bindings.setConn, List.getElem?_set] at hget
    split_ifs at hget with hcc hlen
    · subst hcc
      obtain rfl := Option.some.inj hget
      rw [hc, Option.map_some]
      exact congrArg some (hz.resolve_left hx).symm
    · cases hget
    · exact hget
  have hr := h.rebound
  rw [socketOf_eq] at hconn ⊢
  generalize g'.bindings = b at hr hconn
  cases hr with
  | same => exact hconn
  | accept => rwa [Bindings.accept, List.getElem?_append_left hlt'] at hconn
  | stop hptr =>
    rw [Bindings.conns_stop] at hconn
    exact hset _ _ _ _ _ _ (conns_bindings hptr) (.inl rfl) hconn
  | again => exact hconn
  | bind hptr => exact hset _ _ _ _ _ _ (conns_bindings hptr) (.inr rfl) hconn
  | resume _ _ hptr => exact hset _ _ _ _ _ _ (conns_bindings hptr) (.inr rfl) hconn
  | add => exact hconn
  | told _ _ hb => rwa [hb.conns] at hconn

structure Tidy (g : Gate) : Prop where
  indexed : g.shape.Indexed
  typed : g.shape.Typed
  sound : g.bindings.Sound
  wired : g.Wired

lemma Tidy.step {a : ℕ × Action} (h : Tidy g) (hstep : Stepped g a g') : Tidy g' where
  indexed := hstep.reshaped.indexed h.indexed
  typed := hstep.reshaped.typed h.typed
  sound := hstep.rebound.sound h.sound
  wired := hstep.wired h.wired

lemma Stepped.listed {a : ℕ × Action} (h : Stepped g a g') (hidx : g.shape.Indexed)
    (ha : g.EntersOnce tp a) (hl : g.Listed tp) : g'.Listed tp := by
  have hr := h.reshaped
  rw [listed_iff] at hl ⊢
  generalize g'.shape = sh at hr
  cases hr with
  | resume hreg hdone =>
    rw [hidx.typeIds_add]
    split_ifs with htp
    · refine hl.append (List.nodup_singleton _) ?_
      rw [List.disjoint_singleton]
      exact typeIds_eq ▸ ha _ hreg hdone htp.symm
    · rwa [List.append_nil]
  | grow _ _ hsh => exact hsh.nodup_typeIds hidx hl
  | same => exact hl

end Gate

end Simple.Gobang
