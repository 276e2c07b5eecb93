import Simple.Shm.Spsc

/-! Either process may stop between any two accesses. The one that is started again attaches to the
segment as it is. -/

namespace Simple.Shm

open Simple.Lib Shared

/-- `writer` and `reader` are the indices that the last call of either side has found. -/
structure Restart where
  spsc : Spsc := {}
  writer : ℕ := 0
  reader : ℕ := 0

namespace Restart

inductive Action
  | step (a : Spsc.Action)
  | stopProducer
  | stopConsumer

def call (s : Restart) : Spsc.Action → Restart
  | .call _ => { s with writer := s.spsc.shm.writeIndex }
  | .ask _ => { s with reader := s.spsc.shm.readIndex }
  | _ => s

/-- Of what `fill` has put in the ring the next process knows nothing. -/
def stopProducer (s : Spsc) : Spsc :=
  { s with shared := { s.shared with staged := fun _ => none }, producer := none }

/-- A call that has made its last access has obtained its bytes. -/
def stopConsumer (s : Spsc) : Spsc :=
  match s.consumer with
  | some (c, start, .pure bytes) => { s.deliver start bytes c with consumer := none }
  | _ => { s with consumer := none }

def step (size : ℕ) (s : Restart) : Action → Option Restart
  | .step a => (s.spsc.step size a).map fun t => { s.call a with spsc := t }
  | .stopProducer => some { s with spsc := stopProducer s.spsc }
  | .stopConsumer => some { s with spsc := stopConsumer s.spsc }

def machine (size : ℕ) : Machine Restart Action where
  initial := {}
  step := step size

/-- The call has moved `write_index` and has still to store `write`. -/
def ProducerHalf (s : Restart) : Prop :=
  (∃ c x next, s.spsc.producer = some (c, .act x next)) ∧ s.spsc.shm.writeIndex ≠ s.writer

def ConsumerHalf (s : Restart) : Prop :=
  (∃ c start x next, s.spsc.consumer = some (c, start, .act x next)) ∧
    s.spsc.shm.readIndex ≠ s.reader

def Whole (s : Restart) : Action → Prop
  | .step _ => True
  | .stopProducer => ¬s.ProducerHalf
  | .stopConsumer => ¬s.ConsumerHalf

instance (s : Restart) : Decidable s.ProducerHalf :=
  match hp : s.spsc.producer with
  | none => .isFalse fun ⟨⟨_, _, _, h⟩, _⟩ => by simp [hp] at h
  | some (_, .pure _) => .isFalse fun ⟨⟨_, _, _, h⟩, _⟩ => by simp [hp] at h
  | some (c, .act x next) =>
    decidable_of_iff (s.spsc.shm.writeIndex ≠ s.writer)
      ⟨fun h => ⟨⟨c, x, next, hp⟩, h⟩, fun h => h.2⟩

instance (s : Restart) : Decidable s.ConsumerHalf :=
  match hp : s.spsc.consumer with
  | none => .isFalse fun ⟨⟨_, _, _, _, h⟩, _⟩ => by simp [hp] at h
  | some (_, _, .pure _) => .isFalse fun ⟨⟨_, _, _, _, h⟩, _⟩ => by simp [hp] at h
  | some (c, start, .act x next) =>
    decidable_of_iff (s.spsc.shm.readIndex ≠ s.reader)
      ⟨fun h => ⟨⟨c, start, x, next, hp⟩, h⟩, fun h => h.2⟩

instance (s : Restart) : DecidablePred s.Whole
  | .step _ => inferInstanceAs (Decidable True)
  | .stopProducer => inferInstanceAs (Decidable ¬_)
  | .stopConsumer => inferInstanceAs (Decidable ¬_)

/-- What the consumer obtains is what was committed, and outside of the two stores of a call the
index of its side agrees with it. -/
structure Intact (size : ℕ) (s : Restart) : Prop where
  stream : Spsc.Prefix s.spsc
  writer : ¬s.ProducerHalf → s.spsc.shm.writeIndex = s.spsc.committed.length % size
  reader : ¬s.ConsumerHalf → s.spsc.shm.readIndex = s.spsc.shared.consumed % size
  index : ¬s.ProducerHalf → ¬s.ConsumerHalf → s.spsc.shm.writeIndex =
    (s.spsc.shm.readIndex + sub64 s.spsc.shm.write s.spsc.shm.read) % size

def StoresWrite (x : Access) : Prop := ∃ v, x = .store .write v

def StoresRead (x : Access) : Prop := ∃ v, x = .store .read v

section Codes

variable {α : Type} {p : Access → Prop} {size : ℕ}

lemma never_perform {x : Access} {f : x.Answer → Code α} (hx : ¬p x) (hf : ∀ r, (f r).Never p) :
    (Prog.perform x >>= f).Never p := ⟨hx, hf⟩

lemma ends_perform {x : Access} {f : x.Answer → Code α} (hx : ¬p x) (hf : ∀ r, (f r).Ends p) :
    (Prog.perform x >>= f).Ends p := fun r => ⟨fun h => absurd h hx, hf r⟩

lemma ends_last (x : Access) (a : α) :
    (Prog.perform x >>= fun _ => Pure.pure a : Code α).Ends p := fun _ => ⟨fun _ => ⟨a, rfl⟩, trivial⟩

lemma writeImpl_never (hload : ∀ w, ¬p (.load w)) (hcopy : ∀ i bytes, ¬p (.copyIn i bytes))
    (buf : List UInt8) (offset : ℕ) : (ShmBuffer.writeImpl size buf offset).Never p := by
  apply Prog.Never.bind
  · exact never_perform (hload _) fun _ => never_perform (hload _) fun _ => trivial
  intro total
  split
  · trivial
  split
  · trivial
  apply never_perform (hload _)
  intro writeIndex
  dsimp only
  split
  · exact never_perform (hcopy _ _) fun _ => never_perform (hcopy _ _) fun _ => trivial
  · exact never_perform (hcopy _ _) fun _ => trivial

lemma readImpl_never (hload : ∀ w, ¬p (.load w)) (hcopy : ∀ i len, ¬p (.copyOut i len))
    (len offset : ℕ) : (ShmBuffer.readImpl size len offset).Never p := by
  apply Prog.Never.bind
  · exact never_perform (hload _) fun _ => never_perform (hload _) fun _ => trivial
  intro total
  split
  · trivial
  dsimp only
  split
  · trivial
  apply never_perform (hload _)
  intro readIndex
  split
  · exact never_perform (hcopy _ _) fun _ => never_perform (hcopy _ _) fun _ => trivial
  · exact never_perform (hcopy _ _) fun _ => trivial

end Codes

lemma not_storesWrite {x : Access} (h : ∀ v, x ≠ .store .write v) : ¬StoresWrite x :=
  fun ⟨v, hv⟩ => h v hv

lemma not_storesRead {x : Access} (h : ∀ v, x ≠ .store .read v) : ¬StoresRead x :=
  fun ⟨v, hv⟩ => h v hv

lemma advanceWriteIndex_never (size len : ℕ) :
    (ShmBuffer.advanceWriteIndex size len).Never StoresWrite := by
  have hload (w) : ¬StoresWrite (.load w) := not_storesWrite (by simp)
  have hstore (v) : ¬StoresWrite (.store .writeIndex v) := not_storesWrite (by simp)
  apply never_perform (hload _)
  intro writeIndex
  dsimp only
  split
  · exact never_perform (hstore _) fun _ => trivial
  apply never_perform (hload _)
  intro writeIndex'
  apply never_perform (hstore _)
  intro _
  apply never_perform (hload _)
  intro moved
  split
  · exact never_perform (hstore _) fun _ => trivial
  · trivial

lemma producer_ends (size : ℕ) (c : ProducerCall) : (c.code size).Ends StoresWrite := by
  have hload (w) : ¬StoresWrite (.load w) := not_storesWrite (by simp)
  have hcopy (i bytes) : ¬StoresWrite (.copyIn i bytes) := not_storesWrite (by simp)
  have hstore (v) : ¬StoresWrite (.store .writeIndex v) := not_storesWrite (by simp)
  cases c with
  | write buf =>
    apply (writeImpl_never hload hcopy buf 0).ends_bind
    intro result
    cases result with
    | none => trivial
    | some index =>
      apply ends_perform (hstore _)
      intro _
      exact ends_perform (hload _) fun _ => ends_last _ true
  | fill buf offset => exact (writeImpl_never hload hcopy buf offset).ends_bind fun _ => trivial
  | commit len =>
    apply Prog.Ends.map fun _ => true
    apply Prog.Never.ends_bind
    · exact never_perform (hload _) fun _ => never_perform (hload _) fun _ => trivial
    intro room
    split
    · trivial
    apply (advanceWriteIndex_never size len).ends_bind
    intro _
    exact ends_perform (hload _) fun _ => ends_last _ ()

lemma consumer_ends (size : ℕ) (c : ConsumerCall) : (c.code size).Ends StoresRead := by
  have hload (w) : ¬StoresRead (.load w) := not_storesRead (by simp)
  have hcopy (i len) : ¬StoresRead (.copyOut i len) := not_storesRead (by simp)
  have hstore (v) : ¬StoresRead (.store .readIndex v) := not_storesRead (by simp)
  cases c with
  | read len =>
    apply (readImpl_never hload hcopy len 0).ends_bind
    rintro ⟨bytes, index⟩
    dsimp only
    split
    · apply ends_perform (hstore _)
      intro _
      exact ends_perform (hload _) fun _ => ends_last _ bytes
    · trivial
  | skip len =>
    apply Prog.Ends.map fun _ => []
    apply Prog.Never.ends_bind
    · exact never_perform (hload _) fun _ => never_perform (hload _) fun _ => trivial
    intro total
    dsimp only
    split
    · trivial
    apply ends_perform (hload _)
    intro index
    apply ends_perform (hstore _)
    intro _
    exact ends_perform (hload _) fun _ => ends_last _ ()
  | peek len offset => exact (readImpl_never hload hcopy len offset).ends_bind fun _ => trivial

variable {size : ℕ} {s t : Restart}

/-- A call that still has accesses to make has published nothing. -/
def Writing (size : ℕ) (s : Restart) : Prop :=
  ∀ c x next, s.spsc.producer = some (c, .act x next) →
    (Prog.act x next : Code Bool).Ends StoresWrite ∧ s.writer = s.spsc.committed.length % size

def Reading (size : ℕ) (s : Restart) : Prop :=
  ∀ c start x next, s.spsc.consumer = some (c, start, .act x next) →
    (Prog.act x next : Code (List UInt8)).Ends StoresRead ∧
      s.reader = s.spsc.shared.consumed % size ∧ s.spsc.obtained.length = s.spsc.shared.consumed

structure Inv (size : ℕ) (s : Restart) : Prop where
  spsc : Spsc.Inv size s.spsc
  writing : Writing size s
  reading : Reading size s

lemma note_committed {c : ProducerCall} {x : Access} {sh : Shared} (hx : ¬StoresWrite x) :
    (c.note size sh x).committed = sh.committed := by
  cases x with
  | store w v =>
    cases w with
    | write => exact absurd ⟨v, rfl⟩ hx
    | _ => rfl
  | _ => rfl

lemma note_consumed {x : Access} {sh : Shared} (hx : ¬StoresRead x) :
    (ConsumerCall.note sh x).consumed = sh.consumed := by
  cases x with
  | store w v =>
    cases w with
    | read => exact absurd ⟨v, rfl⟩ hx
    | _ => rfl
  | _ => rfl

lemma settle_consumed (sh : Shared) (c : ProducerCall) (r : Bool) :
    (c.settle sh r).consumed = sh.consumed := by
  cases c <;> cases r <;> rfl

lemma Writing.congr (h : Writing size s) (hp : t.spsc.producer = s.spsc.producer)
    (hw : t.writer = s.writer) (hc : t.spsc.committed = s.spsc.committed) : Writing size t := by
  intro c x next hact
  rw [hp] at hact
  rw [hw, hc]
  exact h c x next hact

lemma Reading.congr (h : Reading size s) (hp : t.spsc.consumer = s.spsc.consumer)
    (hr : t.reader = s.reader) (hc : t.spsc.shared.consumed = s.spsc.shared.consumed)
    (ho : t.spsc.obtained = s.spsc.obtained) : Reading size t := by
  intro c start x next hact
  rw [hp] at hact
  rw [hr, hc, ho]
  exact h c start x next hact

lemma call_writing {c : ProducerCall} {sp : Spsc} (h : Spsc.Inv size s.spsc)
    (ht : s.spsc.step size (.call c) = some sp) : Writing size { s.call (.call c) with spsc := sp } := by
  obtain ⟨⟨sh, producer, consumer, obtained, peeked⟩, writer, reader⟩ := s
  cases producer with
  | some task => simp [Spsc.step] at ht
  | none =>
    obtain rfl := Option.some.inj ht
    intro c' x next hact
    obtain ⟨rfl, hcode⟩ := Prod.mk.inj (Option.some.inj hact)
    refine ⟨hcode ▸ producer_ends size c, ?_⟩
    exact ProducerIdle.index h.producer

lemma ask_reading {c : ConsumerCall} {sp : Spsc} (h : Spsc.Inv size s.spsc)
    (ht : s.spsc.step size (.ask c) = some sp) : Reading size { s.call (.ask c) with spsc := sp } := by
  obtain ⟨⟨sh, producer, consumer, obtained, peeked⟩, writer, reader⟩ := s
  cases consumer with
  | some task => simp [Spsc.step] at ht
  | none =>
    obtain rfl := Option.some.inj ht
    obtain ⟨hidle, hplace⟩ := h.consumer
    intro c' start x next hact
    obtain ⟨rfl, htask⟩ := Prod.mk.inj (Option.some.inj hact)
    obtain ⟨rfl, hcode⟩ := Prod.mk.inj htask
    exact ⟨hcode ▸ consumer_ends size c, hidle, hplace.symm⟩

lemma produce_inv {sp : Spsc} (h : Inv size s) (ht : s.spsc.step size .produce = some sp) :
    Writing size { s with spsc := sp } ∧ Reading size { s with spsc := sp } := by
  obtain ⟨⟨sh, producer, consumer, obtained, peeked⟩, writer, reader⟩ := s
  cases producer with
  | none => simp [Spsc.step] at ht
  | some task =>
    obtain ⟨c, code⟩ := task
    cases code with
    | pure r =>
      obtain rfl := Option.some.inj ht
      refine ⟨fun c' x next hact => absurd hact (by simp), ?_⟩
      exact h.reading.congr rfl rfl (settle_consumed sh c r) rfl
    | act x next =>
      obtain rfl := Option.some.inj ht
      obtain ⟨⟨_, hmove⟩, _⟩ := h.spsc.producer sh (ConsumerMove.refl sh)
      refine ⟨?_, h.reading.congr rfl rfl hmove.consumed rfl⟩
      obtain ⟨hends, hwriter⟩ := h.writing c x next rfl
      intro c' y after hact
      obtain ⟨rfl, hcode⟩ := Prod.mk.inj (Option.some.inj hact)
      obtain ⟨hlast, hrest⟩ := hends (c.exec size x sh).2
      have hx : ¬StoresWrite x := by
        intro hx
        obtain ⟨r, hr⟩ := hlast hx
        simp [hcode] at hr
      have hcommitted : (c.exec size x sh).1.committed = sh.committed := note_committed hx
      exact ⟨hcode ▸ hrest, hwriter.trans (congrArg (·.length % size) hcommitted.symm)⟩

lemma deliver_frame (s : Spsc) (start : ℕ) (bytes : List UInt8) (c : ConsumerCall) :
    (s.deliver start bytes c).shared = s.shared ∧ (s.deliver start bytes c).producer = s.producer := by
  cases c <;> exact ⟨rfl, rfl⟩

lemma consume_inv {sp : Spsc} (h : Inv size s) (ht : s.spsc.step size .consume = some sp) :
    Writing size { s with spsc := sp } ∧ Reading size { s with spsc := sp } := by
  obtain ⟨⟨sh, producer, consumer, obtained, peeked⟩, writer, reader⟩ := s
  cases consumer with
  | none => simp [Spsc.step] at ht
  | some task =>
    obtain ⟨c, start, code⟩ := task
    cases code with
    | pure bytes =>
      obtain rfl := Option.some.inj ht
      refine ⟨?_, fun c' start' x next hact => absurd hact (by simp)⟩
      cases c <;> exact h.writing.congr rfl rfl rfl
    | act x next =>
      obtain rfl := Option.some.inj ht
      obtain ⟨⟨_, hmove⟩, _⟩ := h.spsc.consumer sh (ProducerMove.refl sh)
      refine ⟨h.writing.congr rfl rfl hmove.committed, ?_⟩
      obtain ⟨hends, hreader, hplace⟩ := h.reading c start x next rfl
      intro c' start' y after hact
      obtain ⟨rfl, htask⟩ := Prod.mk.inj (Option.some.inj hact)
      obtain ⟨rfl, hcode⟩ := Prod.mk.inj htask
      obtain ⟨hlast, hrest⟩ := hends (ConsumerCall.exec x sh).2
      have hx : ¬StoresRead x := by
        intro hx
        obtain ⟨r, hr⟩ := hlast hx
        simp [hcode] at hr
      have hconsumed : (ConsumerCall.exec x sh).1.consumed = sh.consumed := note_consumed hx
      refine ⟨hcode ▸ hrest, ?_, ?_⟩
      · exact hreader.trans (congrArg (· % size) hconsumed.symm)
      · exact hplace.trans hconsumed.symm

lemma step_inv (hs : 0 < size) (hm : size < 2 ^ 63) {a : Spsc.Action} (h : Inv size s)
    (ht : step size s (.step a) = some t) : Inv size t := by
  obtain ⟨sp, hsp, rfl⟩ := Option.map_eq_some_iff.mp ht
  have hspsc := Spsc.step_inv hs hm h.spsc hsp
  cases a with
  | call c =>
    refine ⟨hspsc, call_writing h.spsc hsp, ?_⟩
    obtain ⟨⟨sh, producer, consumer, obtained, peeked⟩, writer, reader⟩ := s
    cases producer with
    | some task => simp [Spsc.step] at hsp
    | none =>
      obtain rfl := Option.some.inj hsp
      exact h.reading.congr rfl rfl rfl rfl
  | ask c =>
    refine ⟨hspsc, ?_, ask_reading h.spsc hsp⟩
    obtain ⟨⟨sh, producer, consumer, obtained, peeked⟩, writer, reader⟩ := s
    cases consumer with
    | some task => simp [Spsc.step] at hsp
    | none =>
      obtain rfl := Option.some.inj hsp
      exact h.writing.congr rfl rfl rfl
  | produce => exact ⟨hspsc, (produce_inv h hsp).1, (produce_inv h hsp).2⟩
  | consume => exact ⟨hspsc, (consume_inv h hsp).1, (consume_inv h hsp).2⟩

lemma Inv.producer_index (h : Inv size s) (hw : ¬s.ProducerHalf) :
    s.spsc.shm.writeIndex = s.spsc.committed.length % size := by
  have hproducing := h.spsc.producer
  cases hp : s.spsc.producer with
  | none =>
    rw [hp] at hproducing
    exact ProducerIdle.index hproducing
  | some task =>
    obtain ⟨c, code⟩ := task
    rw [hp] at hproducing
    cases code with
    | pure r =>
      have hidle : ProducerIdle size (c.settle s.spsc.shared r) := hproducing.2
      cases c <;> cases r <;> exact hidle.index
    | act x next =>
      have hfound := (h.writing c x next hp).2
      rw [← hfound]
      by_contra hne
      exact hw ⟨⟨c, x, next, hp⟩, hne⟩

lemma Inv.consumer_index (h : Inv size s) (hr : ¬s.ConsumerHalf) :
    s.spsc.shm.readIndex = s.spsc.shared.consumed % size := by
  have hconsuming := h.spsc.consumer
  cases hp : s.spsc.consumer with
  | none =>
    rw [hp] at hconsuming
    exact hconsuming.1
  | some task =>
    obtain ⟨c, start, code⟩ := task
    rw [hp] at hconsuming
    cases code with
    | pure bytes => exact hconsuming.2.1
    | act x next =>
      have hfound := (h.reading c start x next hp).2.1
      rw [← hfound]
      by_contra hne
      exact hr ⟨⟨c, start, x, next, hp⟩, hne⟩

lemma Inv.intact (h : Inv size s) : Intact size s := by
  refine ⟨h.spsc.stream, h.producer_index, h.consumer_index, ?_⟩
  intro hw hr
  have hreadable := h.spsc.shared.readable
  have hle := h.spsc.shared.consumed_le
  rw [h.producer_index hw, h.consumer_index hr]
  change _ = (_ + sub64 s.spsc.shared.shm.write s.spsc.shared.shm.read) % size
  rw [hreadable, Nat.mod_add_mod, Nat.add_sub_cancel' hle]
  rfl

lemma stopProducer_inv (h : Inv size s) (hw : ¬s.ProducerHalf) :
    Inv size { s with spsc := stopProducer s.spsc } := by
  refine ⟨⟨?_, ⟨?_, ?_, ?_⟩, ?_, h.spsc.place, ?_⟩, ?_, h.reading.congr rfl rfl rfl rfl⟩
  · obtain ⟨h1, h2, h3, h4, h5, h6⟩ := h.spsc.shared
    exact ⟨h1, h2, h3, h4, h5, h6⟩
  · exact h.producer_index hw
  · intro i b hb
    simp [stopProducer] at hb
  · intro i b hb
    simp [stopProducer] at hb
  · apply Spsc.Consuming.stable h.spsc.consumer
    refine ⟨rfl, rfl, rfl, List.prefix_rfl, ?_⟩
    rintro ⟨h1, h2, h3, h4, h5, h6⟩
    exact ⟨h1, h2, h3, h4, h5, h6⟩
  · exact h.spsc.stream.mono List.prefix_rfl rfl rfl
  · intro c x next hact
    simp [stopProducer] at hact

lemma stopConsumer_inv (h : Inv size s) (hr : ¬s.ConsumerHalf) :
    Inv size { s with spsc := stopConsumer s.spsc } := by
  have hindex := h.consumer_index hr
  obtain ⟨sp, writer, reader⟩ := s
  obtain ⟨sh, producer, consumer, obtained, peeked⟩ := sp
  have hproducing := h.spsc.producer
  cases consumer with
  | none => exact h
  | some task =>
    obtain ⟨c, start, code⟩ := task
    cases code with
    | pure bytes =>
      obtain ⟨_, hidle, hb⟩ := h.spsc.consumer
      refine ⟨Spsc.deliver_inv h.spsc hidle hb, ?_, fun c' start' x next hact => absurd hact (by simp [stopConsumer])⟩
      cases c <;> exact h.writing.congr rfl rfl rfl
    | act x next =>
      obtain ⟨_, _, hplace⟩ := h.reading c start x next rfl
      refine ⟨⟨h.spsc.shared, h.spsc.producer, ⟨hindex, hplace.symm⟩, h.spsc.place, ?_⟩, ?_, ?_⟩
      · exact h.spsc.stream.mono List.prefix_rfl rfl rfl
      · exact h.writing.congr rfl rfl rfl
      · exact fun c' start' y after hact => absurd hact (by simp [stopConsumer])

lemma inv_initial : Inv size {} :=
  ⟨Spsc.inv_initial, fun c x next hact => absurd hact (by simp),
    fun c start x next hact => absurd hact (by simp)⟩

lemma stopped_producer (h : Inv size s)
    (hw : (stopProducer s.spsc).shm.writeIndex = s.spsc.committed.length % size) :
    ¬s.ProducerHalf := by
  rintro ⟨⟨c, x, next, hp⟩, hne⟩
  exact hne (hw.trans (h.writing c x next hp).2.symm)

lemma stopped_consumer (h : Inv size s)
    (hr : (stopConsumer s.spsc).shm.readIndex = s.spsc.shared.consumed % size) :
    ¬s.ConsumerHalf := by
  rintro ⟨⟨c, start, x, next, hp⟩, hne⟩
  have hstop : (stopConsumer s.spsc).shm = s.spsc.shm := by simp [stopConsumer, hp, Spsc.shm]
  rw [hstop] at hr
  exact hne (hr.trans (h.reading c start x next hp).2.1.symm)

/-- What was committed comes through any number of restarts exactly as long as no process stops
after it has moved its index and before it has stored its total. -/
theorem intact_iff_whole (seg : Segment) (hs : 0 < seg.size) (as : List Action) :
    (machine seg.size).Always (Intact seg.size) (machine seg.size).initial as ↔
      (machine seg.size).Along Whole (machine seg.size).initial as := by
  have hm : seg.size < 2 ^ 63 := by
    have := seg.mapped
    omega
  apply Machine.always_iff_along_of_kept (I := Inv seg.size)
  · exact fun s h => h.intact
  · intro s a t h hw ht
    cases a with
    | step a => exact step_inv hs hm h ht
    | stopProducer =>
      obtain rfl := Option.some.inj ht
      exact stopProducer_inv h hw
    | stopConsumer =>
      obtain rfl := Option.some.inj ht
      exact stopConsumer_inv h hw
  · intro s a t h ht hintact
    cases a with
    | step a => trivial
    | stopProducer =>
      obtain rfl := Option.some.inj ht
      apply stopped_producer h
      exact hintact.writer fun hhalf => absurd hhalf.1 (by simp [stopProducer])
    | stopConsumer =>
      obtain rfl := Option.some.inj ht
      apply stopped_consumer h
      have hnone : (stopConsumer s.spsc).consumer = none := by
        unfold stopConsumer
        split <;> rfl
      have hshared : (stopConsumer s.spsc).shared = s.spsc.shared := by
        unfold stopConsumer
        split
        · exact (deliver_frame _ _ _ _).1
        · rfl
      rw [← hshared]
      exact hintact.reader fun hhalf => absurd hhalf.1 (by simp [hnone])
  · exact inv_initial

def startedRun : List Action :=
  .step (.call (.write [1, 2])) :: List.replicate 4 (.step .produce)

def nextRun : List Action :=
  .stopProducer :: .step (.call (.write [3])) :: List.replicate 8 (.step .produce) ++
    .step (.ask (.read 1)) :: List.replicate 8 (.step .consume)

theorem intact_stopped_early :
    (machine 4).Always (Intact 4) (machine 4).initial (startedRun ++ nextRun) :=
  (intact_iff_whole ⟨4, by norm_num⟩ (by norm_num) _).mpr (by decide +kernel)

lemma torn_result :
    ((machine 4).run (machine 4).initial (startedRun ++ .step .produce :: nextRun)).map (fun s =>
      (s.spsc.obtained, s.spsc.committed)) = some ([some 1], [3]) := by
  decide +kernel

/-- The producer stops between its two stores, and the next one writes behind a gap. -/
theorem torn_write : ¬(machine 4).Always (Intact 4) (machine 4).initial
    (startedRun ++ .step .produce :: nextRun) := by
  intro h
  obtain ⟨s, hs, hres⟩ := Option.map_eq_some_iff.mp torn_result
  obtain ⟨hobtained, hcommitted⟩ := Prod.mk.inj hres
  have hbyte := (h.last hs).stream.byte 0 1
  rw [hobtained, hcommitted] at hbyte
  exact absurd (hbyte rfl) (by decide)

end Restart

end Simple.Shm
