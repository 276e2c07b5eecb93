import Simple.Gobang.DbUpdate
import Simple.Lib.Modify

/-! The values written for a userid are in the order of its updates. -/

namespace Simple.Gobang

open Simple.Lib

namespace DbProxy

namespace WriteBehind

variable {D : Type} {saver : Saver D} {x y : WriteBehind D × History D} {userid : Int32}
variable {s t : WriteBehind D} {h : History D} {infos : List Int32}

def Fresh (x : WriteBehind D × History D) (userid : Int32) : Prop :=
  ∃ info earlier, x.1.infos.get userid = some info ∧ x.2.arrivedOf userid = earlier ++ [info] ∧
    (x.2.writtenOf userid).Sublist earlier

def Held (x : WriteBehind D × History D) (e : Int32 × Info D) : Prop :=
  (x.2.writtenOf e.1 ++ [e.2]).Sublist (x.2.arrivedOf e.1)

def Settled (saver : Saver D) (x : WriteBehind D × History D) (e : Int32 × Info D) : Prop :=
  (x.2.writtenOf e.1).getLast? = some e.2 ∧
    ∀ doc, stored saver x.1.db e.1 = some doc → Holds saver e.2.data doc

def ops (taken : List (Int32 × Info D)) : List (Int32 × D) := taken.map fun e => (e.1, e.2.data)

def acks (taken : List (Int32 × Info D)) : List (Int32 × UInt16) :=
  taken.map fun e => (e.1, e.2.version)

inductive Progress (saver : Saver D) (x : WriteBehind D × History D) (infos : List Int32) :
    List (Int32 × Info D) → Stage D → Prop
  | acquire : (∀ u ∈ infos, Fresh x u) → Progress saver x infos [] .acquire
  | append {taken todo} : infos = taken.map Prod.fst ++ todo → (∀ u ∈ todo, Fresh x u) →
      (∀ e ∈ taken, Held x e) → Progress saver x infos taken (.append todo)
  | execute {applied rest} : infos = (applied ++ rest).map Prod.fst →
      (∀ e ∈ applied, Settled saver x e) → (∀ e ∈ rest, Held x e) →
      Progress saver x infos (applied ++ rest) (.execute (ops rest))
  | executed {taken} : infos = taken.map Prod.fst → (∀ e ∈ taken, Settled saver x e) →
      Progress saver x infos taken (.done false)
  | thrown {taken} : Progress saver x infos taken (.done true)

structure Sound (saver : Saver D) (x : WriteBehind D × History D) (b : Batch D)
    (taken : List (Int32 × Info D)) : Prop where
  output : b.output = acks taken
  bulk : b.bulk = ops taken
  progress : Progress saver x b.infos taken b.stage

structure Inv (saver : Saver D) (x : WriteBehind D × History D) : Prop where
  single : x.1.unfinished.Nodup
  cached : ∀ u, (x.1.infos.get u).isSome ↔ u ∈ x.1.unfinished
  collected : ∀ u ∈ x.1.collected, Fresh x u
  written : ∀ u, (x.2.writtenOf u).Sublist (x.2.arrivedOf u)
  batches : ∀ b ∈ x.1.batches, ∃ taken, Sound saver x b taken

structure Same (saver : Saver D) (x y : WriteBehind D × History D) (u : Int32) : Prop where
  entry : y.1.infos.get u = x.1.infos.get u
  arrived : y.2.arrivedOf u = x.2.arrivedOf u
  written : y.2.writtenOf u = x.2.writtenOf u
  stored : stored saver y.1.db u = stored saver x.1.db u

lemma Fresh.same (hf : Fresh x userid) (hs : Same saver x y userid) : Fresh y userid := by
  unfold Fresh
  rwa [hs.entry, hs.arrived, hs.written]

lemma Held.same {e : Int32 × Info D} (hh : Held x e) (hs : Same saver x y e.1) : Held y e := by
  unfold Held
  rwa [hs.arrived, hs.written]

lemma Settled.same {e : Int32 × Info D} (hd : Settled saver x e) (hs : Same saver x y e.1) :
    Settled saver y e := by
  unfold Settled
  rwa [hs.written, hs.stored]

lemma Progress.imp {taken : List (Int32 × Info D)} {stage : Stage D}
    (hp : Progress saver x infos taken stage) (hf : ∀ u ∈ infos, Fresh x u → Fresh y u)
    (hh : ∀ e : Int32 × Info D, e.1 ∈ infos → Held x e → Held y e)
    (hd : ∀ e : Int32 × Info D, e.1 ∈ infos → Settled saver x e → Settled saver y e) :
    Progress saver y infos taken stage := by
  have hmem {l : List (Int32 × Info D)} {e : Int32 × Info D} (he : e ∈ l) : e.1 ∈ l.map Prod.fst :=
    List.mem_map_of_mem he
  cases hp with
  | acquire h => exact .acquire fun u hu => hf u hu (h u hu)
  | append hi h1 h2 =>
    subst hi
    exact .append rfl (fun u hu => hf u (List.mem_append_right _ hu) (h1 u hu))
      fun e he => hh e (List.mem_append_left _ (hmem he)) (h2 e he)
  | execute hi h1 h2 =>
    subst hi
    exact .execute rfl (fun e he => hd e (hmem (List.mem_append_left _ he)) (h1 e he))
      fun e he => hh e (hmem (List.mem_append_right _ he)) (h2 e he)
  | executed hi h1 =>
    subst hi
    exact .executed rfl fun e he => hd e (hmem he) (h1 e he)
  | thrown => exact .thrown

lemma Sound.same {b : Batch D} {taken : List (Int32 × Info D)} (hb : Sound saver x b taken)
    (hs : ∀ u ∈ b.infos, Same saver x y u) : Sound saver y b taken :=
  ⟨hb.output, hb.bulk, hb.progress.imp (fun u hu hf => hf.same (hs u hu))
    (fun e he hh => hh.same (hs e.1 he)) fun e he hd => hd.same (hs e.1 he)⟩

structure Merged (x y : WriteBehind D × History D) (e : UpdateInfo D) : Prop where
  entry : ∀ u, y.1.infos.get u = if u = e.userid then some e.info else x.1.infos.get u
  arrived : ∀ u, y.2.arrivedOf u = x.2.arrivedOf u ++ if u = e.userid then [e.info] else []
  written : ∀ u, y.2.writtenOf u = x.2.writtenOf u
  db : y.1.db = x.1.db

variable {e : UpdateInfo D} {m : Merging D}

lemma arrivedOf_append (e : UpdateInfo D) (u : Int32) :
    ({ h with arrived := h.arrived ++ [e] } : History D).arrivedOf u =
      h.arrivedOf u ++ if u = e.userid then [e.info] else [] := by
  unfold History.arrivedOf
  rw [List.filter_append, List.map_append]
  by_cases hu : u = e.userid
  · simp [hu]
  · simp [hu, Ne.symm hu]

lemma Merged.fresh (hm : Merged x y e)
    (hw : (x.2.writtenOf e.userid).Sublist (x.2.arrivedOf e.userid)) : Fresh y e.userid := by
  refine ⟨e.info, x.2.arrivedOf e.userid, ?_, ?_, ?_⟩
  · rw [hm.entry, if_pos rfl]
  · rw [hm.arrived, if_pos rfl]
  · rwa [hm.written]

lemma Merged.keeps_fresh (hm : Merged x y e)
    (hw : (x.2.writtenOf e.userid).Sublist (x.2.arrivedOf e.userid)) (hf : Fresh x userid) :
    Fresh y userid := by
  by_cases hu : userid = e.userid
  · subst hu
    exact hm.fresh hw
  · unfold Fresh
    rwa [hm.entry, hm.arrived, hm.written, if_neg hu, if_neg hu, List.append_nil]

lemma Merged.keeps_sound (hm : Merged x y e)
    (hw : (x.2.writtenOf e.userid).Sublist (x.2.arrivedOf e.userid)) {b : Batch D}
    {taken : List (Int32 × Info D)} (hb : Sound saver x b taken) : Sound saver y b taken := by
  refine ⟨hb.output, hb.bulk, hb.progress.imp (fun u _ hf => hm.keeps_fresh hw hf) ?_ ?_⟩
  · intro f _ hh
    unfold Held
    rw [hm.written, hm.arrived]
    exact List.sublist_append_of_sublist_left hh
  · intro f _ hd
    unfold Settled
    rwa [hm.written, hm.db]

lemma mem_newUserid {u v : Int32} : u ∈ s.newUserid v ↔ u = v ∧ s.infos.get u = none := by
  unfold newUserid
  split <;> simp_all

lemma merge_entry {todo : List (UpdateInfo D)} (hi : Inv saver (s, h))
    (hs : s.merging = some m) (htodo : m.todo = e :: todo) :
    Inv saver (s.merge m, { h with arrived := h.arrived ++ [e] }) := by
  have hinfos : (s.merge m).infos = s.infos.set e.userid e.info := by simp [merge, htodo]
  have hbatches : (s.merge m).batches = s.batches := by simp [merge, htodo]
  have hdb : (s.merge m).db = s.db := by simp [merge, htodo]
  have hcollected : (s.merge m).collected = s.collected ++ s.newUserid e.userid := by
    simp [merge, htodo, WriteBehind.collected, hs]
  have hunfinished : (s.merge m).unfinished = s.unfinished ++ s.newUserid e.userid := by
    rw [unfinished, hbatches, hcollected, ← List.append_assoc]
    rfl
  have hm : Merged (s, h) (s.merge m, { h with arrived := h.arrived ++ [e] }) e :=
    ⟨fun u => (congrArg (Table.get · u) hinfos).trans Table.get_set, arrivedOf_append e,
      fun _ => rfl, hdb⟩
  refine ⟨?_, ?_, ?_, ?_, ?_⟩
  · rw [hunfinished]
    refine List.nodup_append.mpr ⟨hi.single, ?_, ?_⟩
    · unfold newUserid
      split <;> simp
    · rintro u hu v hv rfl
      have hcached := (hi.cached u).mpr hu
      simp [(mem_newUserid.mp hv).2] at hcached
  · intro u
    rw [hm.entry, hunfinished, List.mem_append, ← hi.cached u, mem_newUserid]
    by_cases hu : u = e.userid
    · subst hu
      cases s.infos.get e.userid <;> simp
    · simp [hu]
  · intro u hu
    dsimp only at hu
    rw [hcollected] at hu
    rcases List.mem_append.mp hu with hu | hu
    · exact hm.keeps_fresh (hi.written _) (hi.collected u hu)
    · obtain ⟨rfl, -⟩ := mem_newUserid.mp hu
      exact hm.fresh (hi.written _)
  · intro u
    rw [hm.written, hm.arrived]
    exact List.sublist_append_of_sublist_left (hi.written u)
  · intro b hb
    obtain ⟨taken, htaken⟩ := hi.batches b (hbatches ▸ hb)
    exact ⟨taken, hm.keeps_sound (hi.written _) htaken⟩

lemma merge_posts (hi : Inv saver (s, h)) (hs : s.merging = some m) (htodo : m.todo = []) :
    Inv saver (s.merge m, h) := by
  have hcollected : s.collected = m.new := by simp [WriteBehind.collected, hs]
  have hbatches : (s.merge m).batches =
      if m.new = [] then s.batches else s.batches ++ [{ sender := m.sender, infos := m.new }] := by
    simp [merge, htodo]
  have hempty : (s.merge m).collected = [] := by simp [merge, htodo, WriteBehind.collected]
  have hinfos : (s.merge m).infos = s.infos := by simp [merge, htodo]
  have hdb : (s.merge m).db = s.db := by simp [merge, htodo]
  have hunfinished : (s.merge m).unfinished = s.unfinished := by
    unfold unfinished
    rw [hempty, hcollected, hbatches]
    split_ifs with hnil <;> simp [hnil]
  have hsame (u : Int32) : Same saver (s, h) (s.merge m, h) u :=
    ⟨congrArg (fun t => Table.get t u) hinfos, rfl, rfl, congrArg (stored saver · u) hdb⟩
  refine ⟨hunfinished ▸ hi.single, ?_, ?_, hi.written, ?_⟩
  · intro u
    rw [hunfinished, ← hi.cached u]
    exact iff_of_eq (by rw [hinfos])
  · intro u hu
    dsimp only at hu
    simp [hempty] at hu
  · intro b hb
    have hcases : b ∈ s.batches ∨ b = { sender := m.sender, infos := m.new } := by
      dsimp only at hb
      rw [hbatches] at hb
      split_ifs at hb
      · exact Or.inl hb
      · simpa using hb
    rcases hcases with hb | rfl
    · obtain ⟨taken, htaken⟩ := hi.batches b hb
      exact ⟨taken, htaken.same fun u _ => hsame u⟩
    · refine ⟨[], rfl, rfl, .acquire ?_⟩
      intro u hu
      exact (hi.collected u (hcollected ▸ hu)).same (hsame u)

lemma merge_inv (hi : Inv saver (s, h)) (hs : s.merging = some m) :
    Inv saver (s.merge m, { h with arrived := h.arrived ++ s.arriving }) := by
  cases htodo : m.todo with
  | nil =>
    have harriving : s.arriving = [] := by simp [arriving, hs, htodo]
    rw [harriving, List.append_nil]
    exact merge_posts hi hs htodo
  | cons e todo =>
    have harriving : s.arriving = [e] := by simp [arriving, hs, htodo]
    rw [harriving]
    exact merge_entry hi hs htodo

variable {i : ℕ} {b b' : Batch D} {h' : History D}

lemma Inv.uncollected (hi : Inv saver (s, h)) (hb : s.batches[i]? = some b) :
    ∀ u ∈ s.collected, u ∉ b.infos := by
  intro u hu hub
  obtain ⟨-, -, hdisjoint⟩ := List.nodup_append.mp hi.single
  exact hdisjoint u (List.mem_flatMap.mpr ⟨b, List.mem_of_getElem? hb, hub⟩) u hu rfl

lemma Inv.others (hi : Inv saver (s, h)) (hb : s.batches[i]? = some b) :
    ∃ l₁ l₂, s.batches = l₁ ++ b :: l₂ ∧ (∀ b', s.batches.set i b' = l₁ ++ b' :: l₂) ∧
      s.batches.eraseIdx i = l₁ ++ l₂ ∧
      ∀ c ∈ l₁ ++ l₂, c ∈ s.batches ∧ ∀ u ∈ c.infos, u ∉ b.infos := by
  obtain ⟨l₁, l₂, hl, hset, herase⟩ := split_getElem? hb
  refine ⟨l₁, l₂, hl, hset, herase, ?_⟩
  intro c hc
  refine ⟨(List.eraseIdx_sublist s.batches i).subset (herase ▸ hc), ?_⟩
  have hsingle : (s.batches.flatMap Batch.infos).Nodup := hi.single.of_append_left
  rw [hl] at hsingle
  simp only [List.flatMap_append, List.flatMap_cons, List.nodup_append, List.mem_append,
    List.mem_flatMap] at hsingle
  obtain ⟨-, ⟨-, -, hright⟩, hleft⟩ := hsingle
  intro u hu hub
  rcases List.mem_append.mp hc with hc | hc
  · exact hleft u ⟨c, hc, hu⟩ u (Or.inl hub) rfl
  · exact hright u hub u ⟨c, hc, hu⟩ rfl

lemma Inv.put (hi : Inv saver (s, h)) (hb : s.batches[i]? = some b)
    (hbatches : t.batches = s.batches.set i b') (hinfos : b'.infos = b.infos)
    (hget : t.infos = s.infos) (hmerging : t.merging = s.merging)
    (hsame : ∀ u, u ∉ b.infos → Same saver (s, h) (t, h') u)
    (hwritten : ∀ u ∈ b.infos, (h'.writtenOf u).Sublist (h'.arrivedOf u))
    {taken : List (Int32 × Info D)} (hnew : Sound saver (t, h') b' taken) : Inv saver (t, h') := by
  obtain ⟨l₁, l₂, hl, hset, -, hothers⟩ := hi.others hb
  have hcollected : t.collected = s.collected := by
    simp only [WriteBehind.collected, hmerging]
  have hflat : t.unfinished = s.unfinished := by
    unfold unfinished
    rw [hcollected, hbatches, hset, hl]
    simp [hinfos]
  refine ⟨hflat ▸ hi.single, ?_, ?_, ?_, ?_⟩
  · intro u
    rw [hflat, ← hi.cached u]
    exact iff_of_eq (by rw [hget])
  · intro u hu
    have hu : u ∈ s.collected := hcollected ▸ hu
    exact (hi.collected u hu).same (hsame u (hi.uncollected hb u hu))
  · intro u
    by_cases hu : u ∈ b.infos
    · exact hwritten u hu
    · have hs := hsame u hu
      rw [hs.written, hs.arrived]
      exact hi.written u
  · intro c hc
    dsimp only at hc
    rw [hbatches, hset] at hc
    have hcases : c = b' ∨ c ∈ l₁ ++ l₂ := by
      simp only [List.mem_append, List.mem_cons] at hc ⊢
      tauto
    rcases hcases with rfl | hc
    · exact ⟨taken, hnew⟩
    · obtain ⟨hmem, hdisjoint⟩ := hothers c hc
      obtain ⟨taken', htaken'⟩ := hi.batches c hmem
      exact ⟨taken', htaken'.same fun u hu => hsame u (hdisjoint u hu)⟩

lemma Inv.put_quiet (hi : Inv saver (s, h)) (hb : s.batches[i]? = some b)
    (hinfos : b'.infos = b.infos) {taken : List (Int32 × Info D)}
    (hnew : Sound saver (s, h) b' taken) : Inv saver (s.put i b', h) :=
  hi.put hb rfl hinfos rfl rfl (fun _ _ => ⟨rfl, rfl, rfl, rfl⟩) (fun u _ => hi.written u)
    (hnew.same fun _ _ => ⟨rfl, rfl, rfl, rfl⟩)

lemma lookup_acks {taken : List (Int32 × Info D)} (hn : (taken.map Prod.fst).Nodup)
    {e : Int32 × Info D} (he : e ∈ taken) : (acks taken).lookup e.1 = some e.2.version := by
  induction taken with
  | nil => simp at he
  | cons f taken ih =>
    rw [List.map_cons, List.nodup_cons] at hn
    unfold acks
    rw [List.map_cons, Document.lookup_cons]
    rcases List.mem_cons.mp he with rfl | he
    · exact if_pos rfl
    · rw [if_neg]
      · exact ih hn.2 he
      · rintro hef
        exact hn.1 (hef ▸ List.mem_map_of_mem he)

lemma Inv.infos_nodup (hi : Inv saver (s, h)) (hb : s.batches[i]? = some b) : b.infos.Nodup := by
  obtain ⟨l₁, l₂, hl, -⟩ := hi.others hb
  have hsingle : (s.batches.flatMap Batch.infos).Nodup := hi.single.of_append_left
  rw [hl, List.flatMap_append, List.flatMap_cons] at hsingle
  exact hsingle.of_append_right.of_append_left

lemma stored_save {db db' : Db} {u u' : Int32} {d : D} (hdb : save saver db u d = some db') :
    stored saver db' u' = if u' = u then
      (stored saver db u).map fun doc => Document.setAll doc (saver.fields d)
    else stored saver db u' := by
  obtain ⟨c, hc, rfl⟩ := Option.map_eq_some_iff.mp hdb
  unfold stored
  rw [Function.update_self, Collection.findOne_updateOne (saver.userid_free d) hc]
  simp

lemma holds_setAll (d : D) (doc : BsonDocument) :
    Holds saver d (Document.setAll doc (saver.fields d)) :=
  fun _ he => Document.lookup_setAll (saver.fields_nodup d) he

lemma writtenOf_append (e : Int32 × Info D) (u : Int32) :
    (h.wrote [e]).writtenOf u = h.writtenOf u ++ if e.1 = u then [e.2] else [] := by
  unfold History.writtenOf History.wrote
  rw [List.filter_append, List.map_append]
  split_ifs with hu <;> simp [hu]

lemma apply_inv (hi : Inv saver (s, h)) (hb : s.batches[i]? = some b) {db : Db}
    {applied rest : List (Int32 × Info D)} {e : Int32 × Info D}
    (houtput : b.output = acks (applied ++ e :: rest)) (hbulk : b.bulk = ops (applied ++ e :: rest))
    (hinfos : b.infos = (applied ++ e :: rest).map Prod.fst)
    (happlied : ∀ e ∈ applied, Settled saver (s, h) e) (hrest : ∀ f ∈ e :: rest, Held (s, h) f)
    (hdb : save saver s.db e.1 e.2.data = some db) :
    Inv saver (s.saved i b (ops rest) db, h.wrote [e]) := by
  have hnodup := hinfos ▸ hi.infos_nodup hb
  have hother {u : Int32} (hu : u ≠ e.1) :
      Same saver (s, h) (s.saved i b (ops rest) db, h.wrote [e]) u := by
    refine ⟨rfl, rfl, ?_, ?_⟩
    · rw [writtenOf_append, if_neg hu.symm, List.append_nil]
    · exact (stored_save hdb).trans (if_neg hu)
  simp only [List.map_append, List.map_cons, List.nodup_append, List.nodup_cons] at hnodup
  obtain ⟨-, ⟨hright, -⟩, hleft⟩ := hnodup
  have hne_applied {f : Int32 × Info D} (hf : f ∈ applied) : f.1 ≠ e.1 :=
    hleft _ (List.mem_map_of_mem hf) _ List.mem_cons_self
  have hne_rest {f : Int32 × Info D} (hf : f ∈ rest) : f.1 ≠ e.1 :=
    fun heq => hright (heq ▸ List.mem_map_of_mem hf)
  have happend : applied ++ e :: rest = (applied ++ [e]) ++ rest := by simp
  rw [happend] at hinfos houtput hbulk
  have hprogress : Progress saver (s.saved i b (ops rest) db, h.wrote [e]) b.infos
      (applied ++ [e] ++ rest) (.execute (ops rest)) := by
    refine .execute hinfos ?_ ?_
    · intro f hf
      rcases List.mem_append.mp hf with hf | hf
      · exact (happlied f hf).same (hother (hne_applied hf))
      · obtain rfl := List.mem_singleton.mp hf
        refine ⟨?_, ?_⟩
        · rw [writtenOf_append, if_pos rfl, List.getLast?_concat]
        · intro doc hdoc
          change stored saver db f.1 = some doc at hdoc
          rw [stored_save hdb, if_pos rfl] at hdoc
          obtain ⟨doc', -, rfl⟩ := Option.map_eq_some_iff.mp hdoc
          exact holds_setAll _ _
    · intro f hf
      exact (hrest f (List.mem_cons_of_mem _ hf)).same (hother (hne_rest hf))
  refine hi.put hb rfl rfl rfl rfl ?_ ?_ ⟨houtput, hbulk, hprogress⟩
  · intro u hu
    refine hother fun heq => hu ?_
    rw [hinfos, heq]
    simp
  · intro u hu
    by_cases hue : u = e.1
    · subst hue
      rw [writtenOf_append, if_pos rfl]
      exact hrest e List.mem_cons_self
    · rw [(hother hue).written, (hother hue).arrived]
      exact hi.written u

lemma record_quiet {lost : Bool} (hw : s.writes saver i = []) :
    record saver s h (.work i lost) = h := by
  cases lost
  · simp [record, History.wrote, hw]
  · rfl

lemma work_inv {lost : Bool} (hi : Inv saver (s, h)) (hb : s.batches[i]? = some b)
    (ht : s.work saver i b lost = some t) : Inv saver (t, record saver s h (.work i lost)) := by
  obtain ⟨taken, houtput, hbulk, hp⟩ := hi.batches b (List.mem_of_getElem? hb)
  obtain ⟨sender, infos, output, bulk, stage⟩ := b
  dsimp only at houtput hbulk hp
  cases hp with
  | acquire hfresh =>
    obtain rfl := Option.some.inj ht
    rw [record_quiet (by simp [writes, hb])]
    cases lost with
    | true => exact hi.put_quiet hb rfl ⟨houtput, hbulk, .thrown⟩
    | false => exact hi.put_quiet hb rfl ⟨houtput, hbulk, .append rfl hfresh (by simp)⟩
  | append hinfos hfresh hheld =>
    rw [record_quiet (by simp [writes, hb])]
    rename_i todo
    cases todo with
    | nil =>
      obtain rfl := Option.some.inj ht
      subst hbulk
      rw [List.append_nil] at hinfos
      have hprogress : Progress saver (s, h) infos ([] ++ taken) (.execute (ops taken)) :=
        .execute hinfos (by simp) hheld
      exact hi.put_quiet hb rfl ⟨houtput, rfl, hprogress⟩
    | cons u todo =>
      obtain ⟨info, earlier, hentry, harrived, hwritten⟩ := hfresh u List.mem_cons_self
      dsimp only at hentry
      simp only [work, hentry, Option.map_some] at ht
      obtain rfl := Option.some.inj ht
      have hprogress : Progress saver (s, h) infos (taken ++ [(u, info)]) (.append todo) := by
        refine .append (by simp [hinfos]) (fun v hv => hfresh v (List.mem_cons_of_mem u hv)) ?_
        intro e he
        rcases List.mem_append.mp he with he | he
        · exact hheld e he
        · obtain rfl := List.mem_singleton.mp he
          unfold Held
          rw [harrived]
          exact hwritten.append (List.Sublist.refl _)
      exact hi.put_quiet hb rfl ⟨by simp [houtput, acks], by simp [hbulk, ops], hprogress⟩
  | execute hinfos happlied hrest =>
    rename_i applied rest
    cases rest with
    | nil =>
      obtain rfl := Option.some.inj ht
      rw [record_quiet (by simp [writes, hb, ops])]
      cases lost with
      | true => exact hi.put_quiet hb rfl ⟨houtput, hbulk, .thrown⟩
      | false =>
        rw [List.append_nil] at *
        exact hi.put_quiet hb rfl ⟨houtput, hbulk, .executed hinfos happlied⟩
    | cons e rest =>
      change s.work saver i ⟨_, _, _, _, .execute ((e.1, e.2.data) :: ops rest)⟩ lost = _ at ht
      cases lost with
      | true =>
        obtain rfl := Option.some.inj ht
        exact hi.put_quiet hb rfl ⟨houtput, hbulk, .thrown⟩
      | false =>
        cases hdb : save saver s.db e.1 e.2.data with
        | none =>
          simp only [work, hdb, Bool.false_eq_true, if_false] at ht
          obtain rfl := Option.some.inj ht
          rw [record_quiet (by simp [writes, hb, ops, hdb])]
          exact hi.put_quiet hb rfl ⟨houtput, hbulk, .thrown⟩
        | some db =>
          simp only [work, hdb, Bool.false_eq_true, if_false] at ht
          obtain rfl := Option.some.inj ht
          have hlookup : output.lookup e.1 = some e.2.version := by
            rw [houtput]
            exact lookup_acks (hinfos ▸ hi.infos_nodup hb) (by simp)
          have hwrites : s.writes saver i = [e] := by
            simp [writes, hb, ops, hdb, hlookup]
          have hrecord : record saver s h (.work i false) = h.wrote [e] := congrArg h.wrote hwrites
          rw [hrecord]
          exact apply_inv hi hb houtput hbulk hinfos happlied hrest hdb
  | executed => simp [work] at ht
  | thrown => simp [work] at ht

lemma complete_inv (hi : Inv saver (s, h)) (hmerging : s.merging = none)
    (hb : s.batches[i]? = some b) (thrown : Bool) (announced : List (Bool × List (Announced D))) :
    Inv saver (s.complete i b thrown, { h with announced := announced }) := by
  obtain ⟨l₁, l₂, hl, -, herase, hothers⟩ := hi.others hb
  have hold : s.unfinished = (l₁ ++ b :: l₂).flatMap Batch.infos := by
    simp [unfinished, WriteBehind.collected, hmerging, hl]
  have hempty : (s.complete i b thrown).collected = [] := by
    simp [complete, WriteBehind.collected, hmerging]
  have hbatches : (s.complete i b thrown).batches = l₁ ++ l₂ := herase
  have hnew : (s.complete i b thrown).unfinished = (l₁ ++ l₂).flatMap Batch.infos := by
    rw [unfinished, hempty, hbatches, List.append_nil]
  have hget (u : Int32) : (s.complete i b thrown).infos.get u =
      if u ∈ b.infos then none else s.infos.get u := Table.get_foldl_remove _
  refine ⟨?_, ?_, ?_, hi.written, ?_⟩
  · have hsingle := hi.single
    rw [hold] at hsingle
    dsimp only
    rw [hnew]
    refine hsingle.sublist ?_
    simp only [List.flatMap_append, List.flatMap_cons]
    exact (List.Sublist.refl _).append (List.sublist_append_right _ _)
  · intro u
    dsimp only
    rw [hnew, hget]
    have hcached := hi.cached u
    rw [hold] at hcached
    by_cases hu : u ∈ b.infos
    · simp only [hu, if_true, Option.isSome_none, Bool.false_eq_true, false_iff, List.mem_flatMap]
      rintro ⟨c, hc, huc⟩
      exact (hothers c hc).2 u huc hu
    · simpa [hu] using hcached
  · intro u hu
    dsimp only at hu
    simp [hempty] at hu
  · intro c hc
    dsimp only at hc
    rw [hbatches] at hc
    obtain ⟨hmem, hdisjoint⟩ := hothers c hc
    obtain ⟨taken, htaken⟩ := hi.batches c hmem
    refine ⟨taken, htaken.same fun u hu => ⟨?_, rfl, rfl, rfl⟩⟩
    exact (hget u).trans (if_neg (hdisjoint u hu))

lemma resume_done {db : Db} (ht : (machine saver db).step s (.resume i) = some t) : s.merging = none ∧
    ∃ b thrown, s.batches[i]? = some b ∧ b.stage = .done thrown ∧ t = s.complete i b thrown := by
  change s.step saver (.resume i) = some t at ht
  cases hmerging : s.merging with
  | some m => simp [step, hmerging] at ht
  | none =>
    simp only [step, hmerging] at ht
    obtain ⟨b, hb, hr⟩ := Option.bind_eq_some_iff.mp ht
    cases hstage : b.stage with
    | done thrown =>
      rw [hstage] at hr
      exact ⟨rfl, b, thrown, hb, hstage, (Option.some.inj hr).symm⟩
    | _ => simp [hstage] at hr

lemma update_inv {sender : UInt16} {input : Option (List (UpdateInfo D))} (hi : Inv saver (s, h))
    (ht : s.step saver (.update sender input) = some t) : Inv saver (t, h) := by
  cases hmerging : s.merging with
  | some m => simp [step, hmerging] at ht
  | none =>
    cases input with
    | none =>
      obtain rfl : s = t := by simpa [step, hmerging] using ht
      exact hi
    | some input =>
      obtain rfl : { s with merging := some { sender := sender, todo := input } } = t := by
        simpa [step, hmerging] using ht
      have hcollected : s.collected = [] := by simp [WriteBehind.collected, hmerging]
      have hunfinished : unfinished { s with
          merging := some { sender := sender, todo := input } } = s.unfinished :=
        congrArg (s.batches.flatMap Batch.infos ++ ·) hcollected.symm
      refine ⟨hunfinished ▸ hi.single, ?_, by simp [WriteBehind.collected], hi.written, ?_⟩
      · intro u
        rw [hunfinished]
        exact hi.cached u
      · intro b hb
        obtain ⟨taken, htaken⟩ := hi.batches b hb
        exact ⟨taken, htaken.same fun _ _ => ⟨rfl, rfl, rfl, rfl⟩⟩

lemma recorded_step {db : Db} {act : Action D} (hi : Inv saver x)
    (ht : (recorded saver db).step x act = some y) : Inv saver y := by
  obtain ⟨hstep, hy⟩ := Machine.step_withHistory.mp ht
  obtain ⟨s, h⟩ := x
  obtain ⟨t, h'⟩ := y
  dsimp only at hstep hy
  subst hy
  cases act with
  | update sender input => exact update_inv hi hstep
  | merge =>
    obtain ⟨m, hm, rfl⟩ := Option.map_eq_some_iff.mp hstep
    exact merge_inv hi hm
  | work i lost =>
    obtain ⟨b, hb, hw⟩ := Option.bind_eq_some_iff.mp hstep
    exact work_inv hi hb hw
  | resume i =>
    obtain ⟨hmerging, b, thrown, hb, -, rfl⟩ := resume_done hstep
    exact complete_inv hi hmerging hb _ _

lemma announces_eq {thrown : Bool} (hb : s.batches[i]? = some b) (hstage : b.stage = .done thrown) :
    s.announces saver h i = [(thrown, if thrown then [] else b.output.map fun o =>
      ⟨o.1, o.2, (h.writtenOf o.1).getLast?, stored saver s.db o.1⟩)] := by
  simp only [announces, hb, hstage, complete]
  cases thrown with
  | true => simp
  | false => cases b.output <;> simp

lemma announced_iff {taken : List (Int32 × Info D)} (hd : ∀ e ∈ taken, Settled saver (s, h) e) :
    (∀ a ∈ (acks taken).map fun o =>
        (⟨o.1, o.2, (h.writtenOf o.1).getLast?, stored saver s.db o.1⟩ : Announced D),
      ∃ info doc, a.written = some info ∧ info.version = a.version ∧ a.stored = some doc ∧
        Holds saver info.data doc) ↔ ∀ u ∈ taken.map Prod.fst, (stored saver s.db u).isSome := by
  simp only [acks, List.map_map, List.forall_mem_map]
  refine forall₂_congr fun e he => ?_
  obtain ⟨hlast, hholds⟩ := hd e he
  constructor
  · rintro ⟨info, doc, -, -, hdoc, -⟩
    simpa using Option.isSome_of_eq_some hdoc
  · intro hsome
    obtain ⟨doc, hdoc⟩ := Option.isSome_iff_exists.mp hsome
    exact ⟨e.2, doc, hlast, rfl, hdoc, hholds doc hdoc⟩

lemma ordered_iff {db : Db} {act : Action D} (hi : Inv saver x) (ho : Ordered saver x)
    (ht : (recorded saver db).step x act = some y) : Ordered saver y ↔ Stored saver x act := by
  have hiy := recorded_step hi ht
  obtain ⟨hstep, hy⟩ := Machine.step_withHistory.mp ht
  obtain ⟨s, h⟩ := x
  obtain ⟨t, h'⟩ := y
  dsimp only at hstep hy
  subst hy
  cases act with
  | update sender input =>
    exact iff_of_true ⟨hiy.single, hiy.written, ho.failed, ho.announced⟩ trivial
  | merge => exact iff_of_true ⟨hiy.single, hiy.written, ho.failed, ho.announced⟩ trivial
  | work i lost =>
    refine iff_of_true ⟨hiy.single, hiy.written, ?_, ?_⟩ trivial
    · cases lost <;> exact ho.failed
    · cases lost <;> exact ho.announced
  | resume i =>
    obtain ⟨-, b, thrown, hb, hstage, -⟩ := resume_done hstep
    have hrecord : (record saver s h (.resume i)).announced = h.announced ++ _ :=
      congrArg (h.announced ++ ·) (announces_eq hb hstage)
    cases thrown with
    | true =>
      refine iff_of_true ⟨hiy.single, hiy.written, ?_, ?_⟩ ?_
      · dsimp only
        rw [hrecord]
        exact fun e he hthrown => (List.mem_append.mp he).elim (fun he => ho.failed e he hthrown)
          fun he => by simp [List.mem_singleton.mp he]
      · dsimp only
        rw [hrecord]
        exact fun e he a ha => (List.mem_append.mp he).elim (fun he => ho.announced e he a ha)
          fun he => by simp [List.mem_singleton.mp he] at ha
      · intro b' hb' hfalse
        obtain rfl := Option.some.inj (hb'.symm.trans hb)
        simp [hstage] at hfalse
    | false =>
      obtain ⟨taken, houtput, -, hp⟩ := hi.batches b (List.mem_of_getElem? hb)
      rw [hstage] at hp
      cases hp with
      | executed hinfos hsettled =>
        have hnew := announced_iff hsettled
        rw [← hinfos, ← houtput] at hnew
        constructor
        · intro hoy b' hb' _
          obtain rfl := Option.some.inj (hb'.symm.trans hb)
          refine hnew.mp (hoy.announced (false, _) ?_)
          dsimp only
          rw [hrecord]
          exact List.mem_append_right _ (List.mem_singleton_self _)
        · intro hstored
          refine ⟨hiy.single, hiy.written, ?_, ?_⟩
          · dsimp only
            rw [hrecord]
            exact fun e he hthrown => (List.mem_append.mp he).elim
              (fun he => ho.failed e he hthrown)
              fun he => by simp [List.mem_singleton.mp he] at hthrown
          · dsimp only
            rw [hrecord]
            intro e he
            rcases List.mem_append.mp he with he | he
            · exact ho.announced e he
            · obtain rfl := List.mem_singleton.mp he
              exact hnew.mpr (hstored b hb hstage)

theorem ordered_iff_stored (saver : Saver D) (db : Db) (as : List (Action D)) :
    (recorded saver db).Always (Ordered saver) (recorded saver db).initial as ↔
      (recorded saver db).Along (Stored saver) (recorded saver db).initial as := by
  apply Machine.always_iff_along (I := Inv saver)
  · exact fun x act y hi ht => recorded_step hi ht
  · exact fun x act y hi ho ht => ordered_iff hi ho ht
  · refine ⟨List.nodup_nil, ?_, ?_, fun _ => List.Sublist.refl _, fun b hb => ?_⟩
    · intro u
      exact iff_of_false (fun hu => Bool.false_ne_true hu) List.not_mem_nil
    · exact fun u hu => absurd hu List.not_mem_nil
    · exact absurd hb List.not_mem_nil
  · refine ⟨List.nodup_nil, fun _ => List.Sublist.refl _, fun e he => ?_, fun e he => ?_⟩
    · exact absurd he List.not_mem_nil
    · exact absurd he List.not_mem_nil

def strayRun : List (Action UserData) :=
  [.update 3 (some [⟨5, 1, ⟨2, 0⟩⟩]), .merge, .merge] ++ List.replicate 5 (.work 0 false) ++ [.resume 0]

lemma stray_result : ((recorded updateUser Db.empty).run (recorded updateUser Db.empty).initial
    strayRun).map (fun x => x.2.announced) =
      some [(false, [⟨5, 1, some ⟨1, ⟨2, 0⟩⟩, none⟩])] := by
  decide +kernel

/-- Version 1 of a user is announced of whom nothing is stored. -/
theorem announced_stray : ¬(recorded updateUser Db.empty).Always (Ordered updateUser)
    (recorded updateUser Db.empty).initial strayRun := by
  intro hall
  obtain ⟨x, hx, hannounced⟩ := Option.map_eq_some_iff.mp stray_result
  have hordered := (hall.last hx).announced
  rw [hannounced] at hordered
  obtain ⟨info, doc, -, -, hdoc, -⟩ := hordered _ (List.mem_singleton_self _) _ (List.mem_singleton_self _)
  simp at hdoc

end WriteBehind

end DbProxy

end Simple.Gobang
