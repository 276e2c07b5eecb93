import Simple.Gobang.GateOnline
import Simple.Lib.Replica

/-! What a gate tells a connection about the services of one type. -/

namespace Simple.Gobang

open Simple.Lib

/-- The services of the type, as `update_subscribe` takes them -/
def ServiceInfo.entries (tp : UInt16) (services : List ServiceInfo) : List (UInt16 × Bool) :=
  services.filterMap fun s =>
    if s.tp.toUInt16 = tp then some (s.id.toUInt16, s.online) else none

def LocalMessage.notes (tp : UInt16) : LocalMessage → List (Note UInt16 Bool)
  | .subscribeBrd services => (ServiceInfo.entries tp services).map fun e => .put e.1 e.2
  | .subscribeAck _ .success services => [.copy (collect (ServiceInfo.entries tp services))]
  | _ => []

namespace Shape

structure Typed (sh : Shape) : Prop where
  own : ∀ tp, ∀ i ∈ (sh.types.get tp).getD [], ∃ k, sh.keys[i]? = some k ∧ k.tp = tp
  all : ∀ (i : ℕ) k, sh.keys[i]? = some k → i ∈ (sh.types.get k.tp).getD []

variable {sh sh' : Shape} {R : Key → Prop}

lemma getD_types_add (k : Key) (tp : UInt16) : ((sh.add k).types.get tp).getD [] =
    (sh.types.get tp).getD [] ++ if tp = k.tp then [sh.keys.length] else [] := by
  simp only [Shape.add, Table.get_set]
  split_ifs with h
  · rw [h, Option.getD_some]
  · rw [List.append_nil]

lemma Typed.add (h : Typed sh) (k : Key) : Typed (sh.add k) := by
  have hold : ∀ (i : ℕ) k', sh.keys[i]? = some k' → (sh.add k).keys[i]? = some k' := by
    intro i k' hi
    exact (List.getElem?_append_left (List.getElem?_eq_some_iff.mp hi).1).trans hi
  constructor
  · intro tp i hi
    rw [getD_types_add, List.mem_append] at hi
    rcases hi with hi | hi
    · obtain ⟨k', hk', htp⟩ := h.own tp i hi
      exact ⟨k', hold i k' hk', htp⟩
    · split_ifs at hi with htp
      · obtain rfl := List.mem_singleton.mp hi
        exact ⟨k, by simp [Shape.add], htp.symm⟩
      · cases hi
  · intro i k' hi
    rw [getD_types_add, List.mem_append]
    by_cases hlt : i < sh.keys.length
    · rw [Shape.add, List.getElem?_append_left hlt] at hi
      exact .inl (h.all i k' hi)
    · rw [Shape.add, List.getElem?_append_right (not_lt.mp hlt)] at hi
      obtain ⟨hlen, -⟩ := List.getElem?_eq_some_iff.mp hi
      obtain rfl := List.mem_singleton.mp (List.mem_of_getElem? hi)
      rw [List.length_singleton] at hlen
      exact .inr (by simp only [if_true, List.mem_singleton]; omega)

lemma Grows.typed (hg : Grows R sh sh') (h : Typed sh) : Typed sh' := by
  induction hg with
  | refl => exact h
  | add _ _ _ _ ih => exact ih (h.add _)

lemma Grows.nodup_typeIds (hg : Grows R sh sh') (h : Indexed sh) {tp : UInt16}
    (hl : (sh.typeIds tp).Nodup) : (sh'.typeIds tp).Nodup := by
  induction hg with
  | refl => exact hl
  | add _ _ hnew _ ih =>
    apply ih (h.add _)
    rw [h.typeIds_add]
    split_ifs
    · refine hl.append (List.nodup_singleton _) ?_
      rw [List.disjoint_singleton]
      exact h.not_mem_typeIds hnew tp
    · rwa [List.append_nil]

end Shape

namespace Gate

def listing (g : Gate) (tp : UInt16) : List (UInt16 × Bool) :=
  ((g.serviceTypes.get tp).getD []).filterMap fun i => g.objects[i]?.map fun s => (s.id, s.online)

def flags (g : Gate) (tp : UInt16) : UInt16 → Option Bool := collect (g.listing tp)

/-- What is written to the connection that has the number `x` -/
def heard (x : UInt32) (tp : UInt16) (sent : List (UInt32 × LocalMessage)) :
    List (Note UInt16 Bool) :=
  ((sent.filter fun m => m.1 = x).map Prod.snd).flatMap (LocalMessage.notes tp)

/-- The connection that has the number `x` has subscribed to the type. -/
def Heeds (g : Gate) (x : UInt32) (tp : UInt16) : Prop :=
  ∃ c ∈ (g.subscribeInfos.get tp).getD [], g.conns[c]?.map LocalSocket.socket = some x

def Listed (g : Gate) (tp : UInt16) : Prop := ((g.listing tp).map Prod.fst).Nodup

/-- A connection is told of the changes of a type that lists no service twice. -/
structure Hears (x : UInt32) (tp : UInt16) (g g' : Gate) (more : List (UInt32 × LocalMessage)) :
    Prop where
  sent : g'.sent = g.sent ++ more
  heeds : g'.Heeds x tp ↔ g.Heeds x tp
  tells : g.Listed tp → g.Heeds x tp → Tells (g.flags tp) (heard x tp more) (g'.flags tp)
  quiet : ¬ g.Heeds x tp → heard x tp more = []

structure Overlooks (x : UInt32) (tp : UInt16) (g g' : Gate)
    (more : List (UInt32 × LocalMessage)) : Prop where
  sent : g'.sent = g.sent ++ more
  heard : heard x tp more = []
  listing : g'.listing tp = g.listing tp
  heeds : g'.Heeds x tp ↔ g.Heeds x tp

variable {g g' g'' : Gate} {now : ℕ} {x : UInt32} {tp : UInt16}
  {more more' : List (UInt32 × LocalMessage)}

lemma heard_append : heard x tp (more ++ more') = heard x tp more ++ heard x tp more' := by
  simp [heard]

lemma Hears.trans (h : Hears x tp g g' more) (h' : Hears x tp g' g'' more')
    (hl : g.Listed tp → g'.Listed tp) : Hears x tp g g'' (more ++ more') := by
  refine ⟨?_, h'.heeds.trans h.heeds, ?_, ?_⟩
  · rw [h'.sent, h.sent, List.append_assoc]
  · intro hlisted hh
    rw [heard_append]
    exact (h.tells hlisted hh).trans (h'.tells (hl hlisted) (h.heeds.mpr hh))
  · intro hn
    rw [heard_append, h.quiet hn, h'.quiet (mt h.heeds.mp hn)]
    rfl

lemma Overlooks.hears (h : Overlooks x tp g g' more) : Hears x tp g g' more := by
  refine ⟨h.sent, h.heeds, fun _ _ => ?_, fun _ => h.heard⟩
  rw [h.heard, flags, flags, h.listing]
  exact .nil _

lemma Overlooks.before (h : Overlooks x tp g g' more) (h' : Hears x tp g' g'' more') :
    Hears x tp g g'' (more ++ more') := by
  apply h.hears.trans h'
  rw [Listed, Listed, h.listing]
  exact fun hlisted => hlisted

lemma Hears.overlook (h : Hears x tp g g' more) (h' : Overlooks x tp g' g'' more') :
    Hears x tp g g'' (more ++ more') := by
  refine ⟨?_, h'.heeds.trans h.heeds, ?_, ?_⟩
  · rw [h'.sent, h.sent, List.append_assoc]
  · intro hlisted hh
    rw [heard_append, h'.heard, List.append_nil, flags, flags, h'.listing]
    exact h.tells hlisted hh
  · intro hn
    rw [heard_append, h.quiet hn, h'.heard]
    rfl

lemma Overlooks.of_frame (hsent : g'.sent = g.sent) (hlisting : g'.listing tp = g.listing tp)
    (hheeds : g'.Heeds x tp ↔ g.Heeds x tp) : Overlooks x tp g g' [] :=
  ⟨hsent.trans (List.append_nil _).symm, rfl, hlisting, hheeds⟩

lemma hears_frame (hsent : g'.sent = g.sent) (hlisting : g'.listing tp = g.listing tp)
    (hheeds : g'.Heeds x tp ↔ g.Heeds x tp) : ∃ more, Hears x tp g g' more :=
  ⟨[], (Overlooks.of_frame hsent hlisting hheeds).hears⟩

lemma hears_refl (g : Gate) : ∃ more, Hears x tp g g more := hears_frame rfl rfl Iff.rfl

lemma listing_eq : g.listing tp = ((g.shape.types.get tp).getD []).filterMap fun i =>
    g.bindings.services[i]?.map fun s => (s.id, s.online) := by
  simp only [listing, shape, bindings, List.getElem?_map, Option.map_map]
  rfl

lemma listing_congr (hshape : g'.shape = g.shape)
    (hservices : g'.bindings.services = g.bindings.services) :
    g'.listing tp = g.listing tp := by
  rw [listing_eq, listing_eq, hshape, hservices]

lemma fst_listing : (g.listing tp).map Prod.fst = g.shape.typeIds tp := by
  rw [← typeIds_eq, listing, typeIds, List.map_filterMap]
  congr 1
  funext i
  simp only [Option.map_map]
  rfl

lemma listed_iff : g.Listed tp ↔ (g.shape.typeIds tp).Nodup := by
  rw [Listed, fst_listing]

lemma listed_of_grows {R : Key → Prop} (h : Shape.Grows R g.shape g'.shape)
    (hidx : g.shape.Indexed) (hl : g.Listed tp) : g'.Listed tp :=
  listed_iff.mpr (h.nodup_typeIds hidx (listed_iff.mp hl))

lemma keys_shape {i : ℕ} {s : Service} (h : g.objects[i]? = some s) :
    g.shape.keys[i]? = some s.key := by
  simp [shape, h]

lemma listing_modify {i : ℕ} {s : Service} {f : Line → Line} {online : Bool}
    (ht : g.shape.Typed) (hl : g.Listed s.tp) (hobj : g.objects[i]? = some s)
    (hshape : g'.shape = g.shape) (hid : ∀ t, (f t).id = t.id) (hf : ∀ t, (f t).online = online)
    (hservices : g'.bindings.services = g.bindings.services.modify i f) :
    g'.listing s.tp = (g.listing s.tp).map fun e => if e.1 = s.id then (s.id, online) else e := by
  have hi : i ∈ (g.shape.types.get s.tp).getD [] := ht.all i s.key (keys_shape hobj)
  rw [listing_eq, listing_eq, hshape, hservices, List.map_filterMap]
  apply List.filterMap_congr
  intro j hj
  rw [List.getElem?_modify]
  by_cases hij : i = j
  · subst hij
    simp [services_bindings hobj, hid, hf, Service.line]
  · cases hget : g.objects[j]? with
    | none => simp [bindings, hget]
    | some t =>
      have hne : t.id ≠ s.id := by
        intro heq
        apply hij
        rw [Listed, fst_listing] at hl
        exact eq_of_nodup_filterMap (c := s.id) hl hi hj
          (by simp [keys_shape hobj, Service.key]) (by simp [keys_shape hget, Service.key, heq])
      simp [services_bindings hget, hij, Service.line, hne]

lemma listing_modify_other {i : ℕ} {s : Service} {f : Line → Line} (ht : g.shape.Typed)
    (hobj : g.objects[i]? = some s) (hshape : g'.shape = g.shape)
    (hservices : g'.bindings.services = g.bindings.services.modify i f) (htp : s.tp ≠ tp) :
    g'.listing tp = g.listing tp := by
  rw [listing_eq, listing_eq, hshape, hservices]
  apply List.filterMap_congr
  intro j hj
  have hij : i ≠ j := by
    rintro rfl
    obtain ⟨k, hk, hktp⟩ := ht.own tp i hj
    obtain rfl := Option.some.inj ((keys_shape hobj).symm.trans hk)
    exact htp hktp
  simp [hij]

lemma flags_modify {i : ℕ} {s : Service} {f : Line → Line} {online : Bool}
    (ht : g.shape.Typed) (hl : g.Listed tp) (hobj : g.objects[i]? = some s)
    (hshape : g'.shape = g.shape) (hid : ∀ t, (f t).id = t.id) (hf : ∀ t, (f t).online = online)
    (hservices : g'.bindings.services = g.bindings.services.modify i f) :
    g'.flags tp = if s.tp = tp then Function.update (g.flags tp) s.id (some online)
      else g.flags tp := by
  split_ifs with htp
  · subst htp
    rw [flags, listing_modify ht hl hobj hshape hid hf hservices, collect_set, flags]
    rw [fst_listing, ← typeIds_eq]
    have hi : i ∈ (g.serviceTypes.get s.tp).getD [] := ht.all i s.key (keys_shape hobj)
    exact List.mem_filterMap.mpr ⟨i, hi, by simp [hobj]⟩
  · rw [flags, flags, listing_modify_other ht hobj hshape hservices htp]

lemma flags_add {k : Key} {s : Line} (ht : g.shape.Typed) (hid : s.id = k.id)
    (hshape : g'.shape = g.shape.add k)
    (hservices : g'.bindings.services = g.bindings.services ++ [s]) :
    g'.flags tp = if k.tp = tp then Function.update (g.flags tp) k.id (some s.online)
      else g.flags tp := by
  have hlen : g.bindings.services.length = g.shape.keys.length := by simp [bindings, shape]
  have hold : ∀ i ∈ (g.shape.types.get tp).getD [],
      (g.bindings.services ++ [s])[i]? = g.bindings.services[i]? := by
    intro i hi
    obtain ⟨k', hk', -⟩ := ht.own tp i hi
    apply List.getElem?_append_left
    rw [hlen]
    exact (List.getElem?_eq_some_iff.mp hk').1
  have hlisting : g'.listing tp = g.listing tp ++ if tp = k.tp then [(k.id, s.online)] else [] := by
    rw [listing_eq, listing_eq, hshape, hservices, Shape.getD_types_add, List.filterMap_append]
    congr 1
    · apply List.filterMap_congr
      intro i hi
      rw [hold i hi]
    · split_ifs
      · simp [← hlen, hid]
      · rfl
  rw [flags, hlisting, flags]
  split_ifs with h h' h'
  · exact collect_concat
  · exact absurd h.symm h'
  · exact absurd h'.symm h
  · rw [List.append_nil]

lemma notes_brd {s : Service} : (LocalMessage.subscribeBrd [s.toProto]).notes tp =
    if s.tp = tp then [.put s.id s.online] else [] := by
  simp only [LocalMessage.notes, ServiceInfo.entries, Service.toProto, List.filterMap_cons,
    UInt16.toUInt16_toUInt32]
  split_ifs <;> rfl

def published (g : Gate) (s : Service) : List (UInt32 × LocalMessage) :=
  ((g.subscribeInfos.get s.tp).getD []).filterMap fun c =>
    g.conns[c]?.map fun ptr => (ptr.socket, .subscribeBrd [s.toProto])

lemma update_frame (now : ℕ) {i : ℕ} {s : Service} (hobj : g.objects[i]? = some s) :
    ∃ rpc outbox, g.update now i =
      { g with rpc := rpc, outbox := outbox, sent := g.sent ++ g.published s } := by
  have hpublish : ∀ g : Gate, g.publish s = { g with sent := g.sent ++ g.published s } := by
    intro g
    simp only [publish, published]
    split
    · next h => simp [h]
    · next h => simp [h]
  simp only [update, hobj, hpublish]
  split_ifs
  · exact ⟨g.rpc, g.outbox, rfl⟩
  · simp only [upload]
    split
    · exact ⟨g.rpc, g.outbox, rfl⟩
    · exact ⟨_, _, rfl⟩

lemma heard_published {s : Service} : heard x tp (g.published s) = if s.tp = tp then
    List.replicate (((g.subscribeInfos.get tp).getD []).countP fun c =>
      g.conns[c]?.map LocalSocket.socket = some x) (.put s.id s.online) else [] := by
  have hcons : ∀ (c : ℕ) cs, (c :: cs).filterMap (fun c => g.conns[c]?.map fun ptr =>
      (ptr.socket, LocalMessage.subscribeBrd [s.toProto])) =
      (g.conns[c]?.map fun ptr => (ptr.socket, LocalMessage.subscribeBrd [s.toProto])).toList ++
        cs.filterMap fun c => g.conns[c]?.map fun ptr =>
          (ptr.socket, LocalMessage.subscribeBrd [s.toProto]) := by
    intro c cs
    cases h : g.conns[c]? <;> simp [h]
  have hone : ∀ c : ℕ, heard x tp (g.conns[c]?.map fun ptr =>
      (ptr.socket, LocalMessage.subscribeBrd [s.toProto])).toList =
      if g.conns[c]?.map LocalSocket.socket = some x then
        (if s.tp = tp then [.put s.id s.online] else []) else [] := by
    intro c
    cases g.conns[c]? with
    | none => rfl
    | some ptr =>
      by_cases hx : ptr.socket = x
      · simp [heard, hx, notes_brd]
      · simp [heard, hx]
  have hall : ∀ cs : List ℕ, heard x tp (cs.filterMap fun c => g.conns[c]?.map fun ptr =>
      (ptr.socket, LocalMessage.subscribeBrd [s.toProto])) = if s.tp = tp then
        List.replicate (cs.countP fun c => g.conns[c]?.map LocalSocket.socket = some x)
          (.put s.id s.online) else [] := by
    intro cs
    induction cs with
    | nil => simp [heard]
    | cons c cs ih =>
      rw [hcons, heard_append, hone, ih, List.countP_cons]
      by_cases hc : g.conns[c]?.map LocalSocket.socket = some x <;> by_cases htp : s.tp = tp
      · simp [hc, htp, List.replicate_succ]
      · simp [hc, htp]
      · simp [hc, htp]
      · simp [hc, htp]
  rw [published, hall]
  split_ifs with htp
  · rw [htp]
  · rfl

lemma countP_pos_iff_heeds : 0 < (((g.subscribeInfos.get tp).getD []).countP fun c =>
    g.conns[c]?.map LocalSocket.socket = some x) ↔ g.Heeds x tp := by
  simp [List.countP_pos_iff, Heeds]

lemma hears_update {i : ℕ} {s : Service} (hobj : g'.objects[i]? = some s)
    (hsent : g'.sent = g.sent) (hheeds : g'.Heeds x tp ↔ g.Heeds x tp)
    (hflags : g.Listed tp → g'.flags tp = if s.tp = tp then
      Function.update (g.flags tp) s.id (some s.online) else g.flags tp) :
    Hears x tp g (g'.update now i) (g'.published s) := by
  obtain ⟨rpc, outbox, hupdate⟩ := update_frame now hobj
  rw [hupdate]
  refine ⟨by rw [← hsent], hheeds, ?_, ?_⟩
  · intro hl hh
    change Tells _ _ (g'.flags tp)
    rw [hflags hl, heard_published]
    split_ifs with htp
    · have hpos := countP_pos_iff_heeds.mpr (hheeds.mpr hh)
      obtain ⟨n, hn⟩ := Nat.exists_eq_succ_of_ne_zero hpos.ne'
      rw [hn]
      exact Tells.puts n
    · exact .nil _
  · intro hn
    rw [heard_published]
    split_ifs
    · have hzero := mt countP_pos_iff_heeds.mp (mt hheeds.mp hn)
      rw [Nat.eq_zero_of_not_pos hzero]
      rfl
    · rfl

lemma overlooks_send {y : UInt32} {msg : LocalMessage} (h : y ≠ x ∨ msg.notes tp = []) :
    Overlooks x tp g (g.send y msg) [(y, msg)] := by
  refine ⟨rfl, ?_, rfl, Iff.rfl⟩
  rcases h with h | h
  · simp [heard, h]
  · by_cases hy : y = x
    · simp [heard, hy, h]
    · simp [heard, hy]

lemma heeds_congr (hinfos : g'.subscribeInfos = g.subscribeInfos)
    (hconns : g'.conns.map LocalSocket.socket = g.conns.map LocalSocket.socket) :
    g'.Heeds x tp ↔ g.Heeds x tp := by
  simp only [Heeds, ← List.getElem?_map, hinfos, hconns]

end Gate

end Simple.Gobang
