import Mathlib.Data.List.Sort
import Simple.Lib.Table

/-! The services of an application: how the configuration brings them into being, and how they are
released by the libraries that they come from. -/

namespace Simple.Application

open Simple.Lib

inductive TomlValue
  | empty
  | string (value : String)
  | integer (value : Int64)
  | array (values : List TomlValue)
  | table (entries : List (String × TomlValue))
  | other

namespace TomlValue

def find (config : List (String × TomlValue)) (key : String) : Option TomlValue :=
  (config.find? fun e => e.1 = key).map Prod.snd

def findString (config : List (String × TomlValue)) (key : String) : Option String :=
  match find config key with
  | some (.string value) => some value
  | _ => none

def findInteger (config : List (String × TomlValue)) (key : String) : Option Int64 :=
  match find config key with
  | some (.integer value) => some value
  | _ => none

end TomlValue

structure Service where
  name : String := ""
  type : String := ""
  order : UInt32 := 0
  id : UInt16 := 0
  current : UInt64 := 0
  interval : UInt64 := 0
deriving DecidableEq

structure ServiceDll (H F : Type) where
  handle : H
  create : F
  release : F

/-- `dlopen`, `dlsym` and `dlerror`, the functions in the libraries, and `std::ranges::sort`. A
constructor may throw, and leaves fields of the service as it likes. -/
structure Platform (H F : Type) where
  serviceLoad : String → Option H
  serviceApi : H → String → Option F
  serviceError : String
  construct : F → TomlValue → Except String Service
  sort : (ℕ → UInt32) → List ℕ → List ℕ

/-- A sorted arrangement of the list; equal elements come in any order. -/
def Platform.Sorts {H F : Type} (K : Platform H F) : Prop :=
  ∀ order l, (K.sort order l).Perm l ∧ (K.sort order l).Pairwise fun i j => order i ≤ order j

inductive Event (H F : Type)
  | load (name : String) (handle : H)
  | unload (handle : H)
  | create (fn : F) (service : ℕ)
  | release (fn : F) (service : ℕ)

end Simple.Application

namespace Simple

open Simple.Lib Simple.Application

/-- The services are known by the order of their creation, which stands for their address. -/
structure Application (H F : Type) where
  path : List String := []
  serviceDllMap : Table String (ServiceDll H F) := ∅
  services : List Service := []
  serviceMap : Table UInt16 ℕ := ∅
  serviceSort : List ℕ := []
  events : List (Event H F) := []

namespace Application

variable {H F : Type} (K : Platform H F)

def defaultPath : List String → List String
  | [] => ["./?.so"]
  | path => path

def substitute (name p : String) : Option String :=
  if '?' ∈ p.toList then
    some (String.ofList (p.toList.takeWhile (· ≠ '?') ++ name.toList ++
      (p.toList.dropWhile (· ≠ '?')).tail))
  else none

def openLibrary (path : List String) (name : String) : Option H :=
  path.findSome? fun p => (substitute name p).bind K.serviceLoad

/-- `service_loader::query` -/
def query (a : Application H F) (name : String) : Application H F × Except String (ServiceDll H F) :=
  match a.serviceDllMap.get name with
  | some dll => (a, .ok dll)
  | none =>
    match openLibrary K (defaultPath a.path) name with
    | none => ({ a with path := defaultPath a.path }, .error K.serviceError)
    | some handle =>
      match K.serviceApi handle (name ++ "_create"), K.serviceApi handle (name ++ "_release") with
      | some create, some release =>
        ({ a with
            path := defaultPath a.path
            serviceDllMap := a.serviceDllMap.set name ⟨handle, create, release⟩
            events := a.events ++ [.load name handle] }, .ok ⟨handle, create, release⟩)
      | none, _ =>
        ({ a with
            path := defaultPath a.path
            events := a.events ++ [.load name handle, .unload handle] },
          .error ("service need " ++ (name ++ "_create")))
      | some _, none =>
        ({ a with
            path := defaultPath a.path
            events := a.events ++ [.load name handle, .unload handle] },
          .error ("service need " ++ (name ++ "_release")))

/-- What `load_services` has read of a table before it looks whether the id is there already. -/
structure Entry where
  name : String
  id : UInt16
  type : Option String
  args : TomlValue
  order : Option Int64
  interval : Option Int64

def readEntry : TomlValue → Option Entry
  | .table config =>
    match TomlValue.findString config "name", TomlValue.findInteger config "id" with
    | some name, some id =>
      some
        { name := name
          id := id.toUInt64.toUInt16
          type := TomlValue.findString config "type"
          args := (TomlValue.find config "args").getD .empty
          order := TomlValue.findInteger config "order"
          interval := TomlValue.findInteger config "interval" }
    | _, _ => none
  | _ => none

def Entry.service (e : Entry) (type : String) (service : Service) : Service :=
  { service with
    name := e.name
    type := type
    id := e.id
    order := (e.order.map fun x => x.toUInt64.toUInt32).getD service.order
    interval := (e.interval.map Int64.toUInt64).getD service.interval }

def emplace (a : Application H F) (dll : ServiceDll H F) (service : Service) : Application H F :=
  { a with
    services := a.services ++ [service]
    serviceMap := a.serviceMap.set service.id a.services.length
    serviceSort := a.serviceSort ++ [a.services.length]
    events := a.events ++ [.create dll.create a.services.length] }

/-- One round of the loop in `load_services`; the second component is the exception. -/
def loadService (a : Application H F) (value : TomlValue) : Application H F × Option String :=
  match readEntry value with
  | none => (a, none)
  | some e =>
    if (a.serviceMap.get e.id).isSome then
      (a, some ("service " ++ toString e.id ++ " repeated"))
    else
      match e.type with
      | none => (a, none)
      | some type =>
        match a.query K type with
        | (a, .error error) => (a, some error)
        | (a, .ok dll) =>
          match K.construct dll.create e.args with
          | .error error => (a, some error)
          | .ok service => (a.emplace dll (e.service type service), none)

def loadLoop (a : Application H F) : List TomlValue → Application H F × Option String
  | [] => (a, none)
  | value :: values =>
    match a.loadService K value with
    | (a, none) => loadLoop a values
    | (a, some error) => (a, some error)

def order (a : Application H F) (i : ℕ) : UInt32 := (a.services[i]?.map Service.order).getD 0

def loadServices (a : Application H F) (config : List (String × TomlValue)) :
    Application H F × Option String :=
  match TomlValue.find config "services" with
  | some (.array []) => (a, none)
  | some (.array services) =>
    match a.loadLoop K services with
    | (a, none) => ({ a with serviceSort := K.sort a.order a.serviceSort }, none)
    | (a, some error) => (a, some error)
  | _ => (a, none)

def releaseService (a : Application H F) (i : ℕ) : Application H F × Option String :=
  match a.query K ((a.services[i]?.map Service.type).getD "") with
  | (a, .error error) => (a, some error)
  | (a, .ok dll) => ({ a with events := a.events ++ [.release dll.release i] }, none)

def releaseLoop (a : Application H F) : List ℕ → Application H F × Option String
  | [] => (a, none)
  | i :: is =>
    match a.releaseService K i with
    | (a, none) => releaseLoop a is
    | (a, some error) => (a, some error)

def releaseServices (a : Application H F) : Application H F × Option String :=
  match a.releaseLoop K a.serviceSort with
  | (a, none) => ({ a with serviceSort := [], serviceMap := ∅ }, none)
  | (a, some error) => (a, some error)

def containsService (a : Application H F) (id : UInt16) : Bool := (a.serviceMap.get id).isSome

/-- What `query` finds when it has to look. -/
def library (path : List String) (name : String) : Option (ServiceDll H F) :=
  (openLibrary K (defaultPath path) name).bind fun handle =>
    (K.serviceApi handle (name ++ "_create")).bind fun create =>
      (K.serviceApi handle (name ++ "_release")).map fun release => ⟨handle, create, release⟩

def added (a : Application H F) (name : String) (dll : ServiceDll H F) : Application H F :=
  { a with
    path := defaultPath a.path
    serviceDllMap := a.serviceDllMap.set name dll
    events := a.events ++ [.load name dll.handle] }

variable {K} {a b : Application H F} {name : String} {dll : ServiceDll H F} {error : String}

lemma defaultPath_defaultPath (path : List String) : defaultPath (defaultPath path) = defaultPath path := by
  cases path <;> rfl

lemma query_known (h : a.serviceDllMap.get name = some dll) : a.query K name = (a, .ok dll) := by
  rw [query, h]

lemma query_found (h : a.serviceDllMap.get name = none) (hlib : library K a.path name = some dll) :
    a.query K name = (a.added name dll, .ok dll) := by
  obtain ⟨handle, hopen, hlib⟩ := Option.bind_eq_some_iff.mp hlib
  obtain ⟨create, hcreate, hlib⟩ := Option.bind_eq_some_iff.mp hlib
  obtain ⟨release, hrelease, rfl⟩ := Option.map_eq_some_iff.mp hlib
  simp only [query, h, hopen, hcreate, hrelease, added]

lemma query_missing (h : a.serviceDllMap.get name = none) (hlib : library K a.path name = none) :
    ∃ b error, a.query K name = (b, .error error) := by
  unfold query
  rw [h]
  cases hopen : openLibrary K (defaultPath a.path) name with
  | none => exact ⟨_, _, rfl⟩
  | some handle =>
    rw [library, hopen, Option.bind_some] at hlib
    cases hcreate : K.serviceApi handle (name ++ "_create") with
    | none =>
      simp only [hcreate]
      exact ⟨_, _, rfl⟩
    | some create =>
      rw [hcreate, Option.bind_some, Option.map_eq_none_iff] at hlib
      simp only [hcreate, hlib]
      exact ⟨_, _, rfl⟩

lemma library_congr {p q : List String} (h : defaultPath p = defaultPath q) (name : String) :
    library K p name = library K q name := by
  rw [library, library, h]

def Event.created : Event H F → Option (F × ℕ)
  | .create fn i => some (fn, i)
  | _ => none

def Event.released : Event H F → Option (F × ℕ)
  | .release fn i => some (fn, i)
  | _ => none

def Event.loaded : Event H F → Option String
  | .load name _ => some name
  | _ => none

def Event.isUnload : Event H F → Bool
  | .unload _ => true
  | _ => false

variable {path : List String} {done : List Entry} {e : Entry} {service : Service} {type : String}
  {value : TomlValue}

def complete (es : List Entry) : List Entry := es.filter fun e => e.type.isSome

def Loads (K : Platform H F) (path : List String) (e : Entry) (service : Service) : Prop :=
  ∃ type dll made, e.type = some type ∧ library K path type = some dll ∧
    K.construct dll.create e.args = .ok made ∧ service = e.service type made

/-- An entry that goes through after the others: its id is new, and it has no type, or one whose
library is there and whose constructor does not throw. -/
def Fits (K : Platform H F) (path : List String) (done : List Entry) (e : Entry) : Prop :=
  (∀ e' ∈ complete done, e'.id ≠ e.id) ∧ ∀ type, e.type = some type →
    ∃ dll made, library K path type = some dll ∧ K.construct dll.create e.args = .ok made

structure Loaded (K : Platform H F) (path : List String) (done : List Entry) (a : Application H F) :
    Prop where
  searches : defaultPath a.path = defaultPath path
  found : ∀ name dll, a.serviceDllMap.get name = some dll → library K path name = some dll
  services : List.Forall₂ (Loads K path) (complete done) a.services
  map : ∀ id i, a.serviceMap.get id = some i ↔ ∃ s, a.services[i]? = some s ∧ s.id = id
  sort : a.serviceSort = List.range a.services.length
  created : ∃ dlls : List (ServiceDll H F),
    List.Forall₂ (fun s dll => a.serviceDllMap.get s.type = some dll) a.services dlls ∧
      a.events.filterMap Event.created = dlls.zipIdx.map fun x => (x.1.create, x.2)
  loaded : (a.events.filterMap Event.loaded).Nodup ∧
    ∀ name ∈ a.events.filterMap Event.loaded, (a.serviceDllMap.get name).isSome
  kept : ∀ x ∈ a.events, x.isUnload = false ∧ x.released = none

lemma Loads.id (h : Loads K path e service) : service.id = e.id := by
  obtain ⟨type, dll, made, -, -, -, rfl⟩ := h
  rfl

lemma ids_eq {es : List Entry} {services : List Service}
    (h : List.Forall₂ (Loads K path) es services) : services.map Service.id = es.map Entry.id := by
  induction h with
  | nil => rfl
  | cons hload _ ih => rw [List.map_cons, List.map_cons, hload.id, ih]

lemma Loaded.initial (K : Platform H F) (path : List String) : Loaded K path [] { path := path } where
  searches := rfl
  found name dll h := by cases h
  services := .nil
  map id i := by
    constructor
    · intro h
      cases h
    · rintro ⟨s, hs, -⟩
      cases hs
  sort := rfl
  created := ⟨[], .nil, rfl⟩
  loaded := ⟨List.nodup_nil, by simp⟩
  kept := by simp

lemma Loaded.isSome_iff (h : Loaded K path done a) (id : UInt16) :
    (a.serviceMap.get id).isSome ↔ ∃ e ∈ complete done, e.id = id := by
  have hids : (∃ e ∈ complete done, e.id = id) ↔ id ∈ a.services.map Service.id := by
    rw [ids_eq h.services, List.mem_map]
  rw [hids, Option.isSome_iff_exists, List.mem_map]
  constructor
  · rintro ⟨i, hi⟩
    obtain ⟨s, hs, hid⟩ := (h.map id i).mp hi
    exact ⟨s, List.mem_of_getElem? hs, hid⟩
  · rintro ⟨s, hs, hid⟩
    obtain ⟨i, hi⟩ := List.mem_iff_getElem?.mp hs
    exact ⟨i, (h.map id i).mpr ⟨s, hi, hid⟩⟩

lemma Loaded.added (h : Loaded K path done a) (hnone : a.serviceDllMap.get name = none)
    (hlib : library K path name = some dll) : Loaded K path done (a.added name dll) := by
  have hkept : ∀ n d, a.serviceDllMap.get n = some d →
      (a.serviceDllMap.set name dll).get n = some d := by
    intro n d hd
    have hne : n ≠ name := by
      rintro rfl
      rw [hnone] at hd
      cases hd
    rw [Table.get_set_ne hne, hd]
  have hevents : (a.added name dll).events = a.events ++ [.load name dll.handle] := rfl
  obtain ⟨dlls, hdlls, hcreated⟩ := h.created
  obtain ⟨hnodup, hsome⟩ := h.loaded
  have hnew : name ∉ a.events.filterMap Event.loaded := by
    intro hmem
    have := hsome name hmem
    rw [hnone] at this
    cases this
  refine ⟨(defaultPath_defaultPath a.path).trans h.searches, ?_, h.services, h.map, h.sort,
    ⟨dlls, hdlls.imp fun s d hd => hkept _ d hd, ?_⟩, ⟨?_, ?_⟩, ?_⟩
  · intro n d hd
    have hget : (a.serviceDllMap.set name dll).get n = some d := hd
    rw [Table.get_set] at hget
    split_ifs at hget with hn
    · rw [hn, hlib, hget]
    · exact h.found n d hget
  · rw [hevents, List.filterMap_append, hcreated]
    exact List.append_nil _
  · rw [hevents, List.filterMap_append]
    exact hnodup.append (List.nodup_singleton name) (List.disjoint_singleton.mpr hnew)
  · intro n hn
    rw [hevents, List.filterMap_append, List.mem_append] at hn
    change ((a.serviceDllMap.set name dll).get n).isSome = true
    rcases hn with hn | hn
    · obtain ⟨d, hd⟩ := Option.isSome_iff_exists.mp (hsome n hn)
      rw [hkept n d hd]
      rfl
    · obtain rfl : n = name := List.mem_singleton.mp hn
      rw [Table.get_set_self]
      rfl
  · intro x hx
    rw [hevents, List.mem_append] at hx
    rcases hx with hx | hx
    · exact h.kept x hx
    · rw [List.mem_singleton.mp hx]
      exact ⟨rfl, rfl⟩

lemma Loaded.query_some (h : Loaded K path done a) (hlib : library K path name = some dll) :
    ∃ b, a.query K name = (b, .ok dll) ∧ Loaded K path done b ∧
      b.serviceDllMap.get name = some dll ∧ b.serviceMap = a.serviceMap := by
  cases hget : a.serviceDllMap.get name with
  | some d =>
    obtain rfl : d = dll := Option.some.inj ((h.found name d hget).symm.trans hlib)
    exact ⟨a, query_known hget, h, hget, rfl⟩
  | none =>
    refine ⟨_, query_found hget ((library_congr h.searches name).trans hlib), h.added hget hlib, ?_, rfl⟩
    exact Table.get_set_self

lemma Loaded.query_none (h : Loaded K path done a) (hlib : library K path name = none) :
    ∃ b error, a.query K name = (b, .error error) := by
  cases hget : a.serviceDllMap.get name with
  | some d =>
    rw [h.found name d hget] at hlib
    cases hlib
  | none => exact query_missing hget ((library_congr h.searches name).trans hlib)

lemma complete_append (es : List Entry) (e : Entry) :
    complete (es ++ [e]) = complete es ++ if e.type.isSome then [e] else [] := by
  rw [complete, List.filter_append]
  cases he : e.type <;> simp [complete, he]

lemma Loaded.skip (h : Loaded K path done a) (he : e.type = none) : Loaded K path (done ++ [e]) a :=
  { h with services := by simpa [complete_append, he] using h.services }

lemma getElem?_concat_eq_some {T : Type} {l : List T} {x y : T} {i : ℕ} :
    (l ++ [x])[i]? = some y ↔ l[i]? = some y ∨ i = l.length ∧ x = y := by
  rcases Nat.lt_trichotomy i l.length with hlt | rfl | hgt
  · simp [List.getElem?_append_left hlt, hlt.ne]
  · simp
  · simp [List.getElem?_eq_none (l := l) hgt.le, List.getElem?_eq_none (l := l ++ [x]) (by simpa using hgt),
      hgt.ne']

lemma Loaded.emplace (h : Loaded K path done a) (hid : a.serviceMap.get e.id = none)
    {made : Service} (htype : e.type = some type) (hget : a.serviceDllMap.get type = some dll)
    (hmade : K.construct dll.create e.args = .ok made) :
    Loaded K path (done ++ [e]) (a.emplace dll (e.service type made)) := by
  obtain ⟨dlls, hdlls, hcreated⟩ := h.created
  have hlength : dlls.length = a.services.length := hdlls.length_eq.symm
  have hevents : (a.emplace dll (e.service type made)).events =
      a.events ++ [.create dll.create a.services.length] := rfl
  refine ⟨h.searches, h.found, ?_, ?_, ?_, ⟨dlls ++ [dll], ?_, ?_⟩, ?_, ?_⟩
  · rw [complete_append, htype]
    refine List.rel_append h.services (.cons ?_ .nil)
    exact ⟨type, dll, made, htype, h.found type dll hget, hmade, rfl⟩
  · intro id i
    change (a.serviceMap.set e.id a.services.length).get id = some i ↔
      ∃ s, (a.services ++ [e.service type made])[i]? = some s ∧ s.id = id
    rw [Table.get_set]
    constructor
    · intro hi
      split_ifs at hi with hsame
      · obtain rfl := Option.some.inj hi
        exact ⟨_, List.getElem?_concat_length, hsame.symm⟩
      · obtain ⟨s, hs, hsid⟩ := (h.map id i).mp hi
        exact ⟨s, getElem?_concat_eq_some.mpr (.inl hs), hsid⟩
    · rintro ⟨s, hs, hsid⟩
      rcases getElem?_concat_eq_some.mp hs with hs | ⟨rfl, rfl⟩
      · have hi := (h.map id i).mpr ⟨s, hs, hsid⟩
        rw [if_neg, hi]
        rintro rfl
        rw [hid] at hi
        cases hi
      · exact if_pos hsid.symm
  · change a.serviceSort ++ [a.services.length] =
      List.range (a.services ++ [e.service type made]).length
    rw [h.sort, List.length_append, List.length_singleton, List.range_succ]
  · exact List.rel_append hdlls (.cons hget .nil)
  · rw [hevents, List.filterMap_append, hcreated, List.zipIdx_append, List.map_append, hlength]
    simp [Event.created]
  · have hsame : (a.emplace dll (e.service type made)).events.filterMap Event.loaded =
        a.events.filterMap Event.loaded := by
      rw [hevents, List.filterMap_append]
      exact List.append_nil _
    rw [hsame]
    exact h.loaded
  · intro x hx
    rw [hevents, List.mem_append] at hx
    rcases hx with hx | hx
    · exact h.kept x hx
    · rw [List.mem_singleton.mp hx]
      exact ⟨rfl, rfl⟩

lemma Loaded.step (h : Loaded K path done a) (hread : readEntry value = some e) :
    (Fits K path done e ∧
      ∃ b, a.loadService K value = (b, none) ∧ Loaded K path (done ++ [e]) b) ∨
    ¬Fits K path done e ∧ ∃ b error, a.loadService K value = (b, some error) := by
  simp only [loadService, hread]
  by_cases hknown : (a.serviceMap.get e.id).isSome
  · obtain ⟨e', he', hid⟩ := (h.isSome_iff e.id).mp hknown
    rw [if_pos hknown]
    exact .inr ⟨fun hfits => hfits.1 e' he' hid, _, _, rfl⟩
  rw [if_neg hknown]
  have hfresh : ∀ e' ∈ complete done, e'.id ≠ e.id :=
    fun e' he' hid => hknown ((h.isSome_iff e.id).mpr ⟨e', he', hid⟩)
  cases htype : e.type with
  | none => exact .inl ⟨⟨hfresh, by simp [htype]⟩, a, rfl, h.skip htype⟩
  | some type =>
    cases hlib : library K path type with
    | none =>
      obtain ⟨b, error, hquery⟩ := h.query_none hlib
      refine .inr ⟨fun hfits => ?_, b, error, by simp only [hquery]⟩
      obtain ⟨dll, made, hdll, -⟩ := hfits.2 type htype
      rw [hlib] at hdll
      cases hdll
    | some dll =>
      obtain ⟨b, hquery, hb, hget, hmap⟩ := h.query_some hlib
      cases hmade : K.construct dll.create e.args with
      | error error =>
        refine .inr ⟨fun hfits => ?_, b, error, by simp only [hquery, hmade]⟩
        obtain ⟨dll', made, hdll, hok⟩ := hfits.2 type htype
        obtain rfl := Option.some.inj (hlib.symm.trans hdll)
        rw [hmade] at hok
        cases hok
      | ok made =>
        have hid : b.serviceMap.get e.id = none := by
          rw [hmap]
          exact Option.not_isSome_iff_eq_none.mp hknown
        refine .inl ⟨⟨hfresh, ?_⟩, _, by simp only [hquery, hmade], hb.emplace hid htype hget hmade⟩
        intro type' htype'
        obtain rfl := Option.some.inj (htype.symm.trans htype')
        exact ⟨dll, made, hlib, hmade⟩

def Loadable (K : Platform H F) (path : List String) (done es : List Entry) : Prop :=
  ∀ i e, es[i]? = some e → Fits K path (done ++ es.take i) e

lemma loadable_cons {es : List Entry} : Loadable K path done (e :: es) ↔
    Fits K path done e ∧ Loadable K path (done ++ [e]) es := by
  constructor
  · intro h
    refine ⟨by simpa using h 0 e rfl, fun i e' hi => ?_⟩
    have hnext := h (i + 1) e' hi
    rwa [List.take_succ_cons, List.append_cons] at hnext
  · rintro ⟨hfits, hrest⟩ i e' hi
    cases i with
    | zero =>
      obtain rfl := Option.some.inj hi
      simpa using hfits
    | succ i =>
      rw [List.take_succ_cons, List.append_cons]
      exact hrest i e' hi

lemma Loaded.loop (h : Loaded K path done a) (values : List TomlValue) :
    (Loadable K path done (values.filterMap readEntry) ∧
      ∃ b, a.loadLoop K values = (b, none) ∧
        Loaded K path (done ++ values.filterMap readEntry) b) ∨
    ¬Loadable K path done (values.filterMap readEntry) ∧
      ∃ b error, a.loadLoop K values = (b, some error) := by
  induction values generalizing done a with
  | nil => exact .inl ⟨fun i e he => by simp at he, a, rfl, by simpa using h⟩
  | cons value values ih =>
    cases hread : readEntry value with
    | none =>
      have hskip : a.loadService K value = (a, none) := by rw [loadService, hread]
      rw [List.filterMap_cons_none hread, loadLoop, hskip]
      exact ih h
    | some e =>
      have happend : done ++ e :: values.filterMap readEntry =
          done ++ [e] ++ values.filterMap readEntry := List.append_cons _ _ _
      rw [List.filterMap_cons_some hread, loadable_cons, happend]
      rcases h.step hread with ⟨hfits, b, hb, hloaded⟩ | ⟨hnot, b, error, hb⟩
      · rw [loadLoop, hb]
        rcases ih hloaded with ⟨hrest, hdone⟩ | ⟨hrest, hdone⟩
        · exact .inl ⟨⟨hfits, hrest⟩, hdone⟩
        · exact .inr ⟨fun hboth => hrest hboth.2, hdone⟩
      · rw [loadLoop, hb]
        exact .inr ⟨fun hboth => hnot hboth.1, b, error, rfl⟩

def entries (config : List (String × TomlValue)) : List Entry :=
  match TomlValue.find config "services" with
  | some (.array services) => services.filterMap readEntry
  | _ => []

lemma loadServices_cases (hsorts : K.Sorts) (path : List String) (config : List (String × TomlValue)) :
    (Loadable K path [] (entries config) ∧
      ∃ (b : Application H F) (sorted : List ℕ), Loaded K path (entries config) b ∧
        sorted.Perm b.serviceSort ∧ (sorted.Pairwise fun i j => b.order i ≤ b.order j) ∧
        loadServices K { path := path } config = ({ b with serviceSort := sorted }, none)) ∨
    ¬Loadable K path [] (entries config) ∧
      ∃ b error, loadServices K { path := path } config = (b, some error) := by
  have hinitial := Loaded.initial K path
  have hnothing (hentries : entries config = [])
      (hload : loadServices K { path := path } config = ({ path := path }, none)) :
      Loadable K path [] (entries config) ∧
        ∃ (b : Application H F) (sorted : List ℕ), Loaded K path (entries config) b ∧
          sorted.Perm b.serviceSort ∧ (sorted.Pairwise fun i j => b.order i ≤ b.order j) ∧
          loadServices K { path := path } config = ({ b with serviceSort := sorted }, none) := by
    rw [hentries]
    exact ⟨fun i e he => by simp at he, _, [], hinitial, .refl _, .nil, hload⟩
  cases hfind : TomlValue.find config "services" with
  | none => exact .inl (hnothing (by simp only [entries, hfind]) (by simp only [loadServices, hfind]))
  | some services =>
    cases services with
    | array values =>
      cases values with
      | nil =>
        exact .inl (hnothing (by simp [entries, hfind]) (by simp only [loadServices, hfind]))
      | cons value values =>
        have hentries : entries config = (value :: values).filterMap readEntry := by
          simp only [entries, hfind]
        rw [hentries]
        rcases hinitial.loop (value :: values) with ⟨hable, b, hb, hloaded⟩ | ⟨hnot, b, error, hb⟩
        · obtain ⟨hperm, hordered⟩ := hsorts b.order b.serviceSort
          refine .inl ⟨hable, b, _, by simpa using hloaded, hperm, hordered, ?_⟩
          simp only [loadServices, hfind, hb]
        · exact .inr ⟨hnot, b, error, by simp only [loadServices, hfind, hb]⟩
    | empty | string | integer | table | other =>
      exact .inl (hnothing (by simp only [entries, hfind]) (by simp only [loadServices, hfind]))

def releases (dlls : List (ServiceDll H F)) (is : List ℕ) : List (Event H F) :=
  is.filterMap fun i => dlls[i]?.map fun dll => .release dll.release i

section Release

variable {dlls : List (ServiceDll H F)} {is : List ℕ}

lemma releaseLoop_eq (h : ∀ i ∈ is, ∃ s dll, a.services[i]? = some s ∧ dlls[i]? = some dll ∧
      a.serviceDllMap.get s.type = some dll) :
    a.releaseLoop K is = ({ a with events := a.events ++ releases dlls is }, none) := by
  induction is generalizing a with
  | nil => simp [releaseLoop, releases]
  | cons i is ih =>
    obtain ⟨s, dll, hs, hdll, hget⟩ := h i List.mem_cons_self
    have hone : a.releaseService K i =
        ({ a with events := a.events ++ [.release dll.release i] }, none) := by
      rw [releaseService, hs, Option.map_some, Option.getD_some, query_known hget]
    rw [releaseLoop, hone]
    simp only
    rw [ih (a := { a with events := a.events ++ [.release dll.release i] })
      fun j hj => h j (List.mem_cons_of_mem i hj)]
    simp [releases, hdll]

lemma mem_releases {x : Event H F} (hx : x ∈ releases dlls is) : ∃ fn i, x = .release fn i := by
  obtain ⟨i, -, hi⟩ := List.mem_filterMap.mp hx
  obtain ⟨dll, -, rfl⟩ := Option.map_eq_some_iff.mp hi
  exact ⟨dll.release, i, rfl⟩

lemma releases_created : (releases dlls is).filterMap Event.created = [] := by
  refine List.filterMap_eq_nil_iff.mpr fun x hx => ?_
  obtain ⟨fn, i, rfl⟩ := mem_releases hx
  rfl

lemma releases_loaded : (releases dlls is).filterMap Event.loaded = [] := by
  refine List.filterMap_eq_nil_iff.mpr fun x hx => ?_
  obtain ⟨fn, i, rfl⟩ := mem_releases hx
  rfl

lemma releases_released : (releases dlls is).filterMap Event.released =
    is.filterMap fun i => dlls[i]?.map fun dll => (dll.release, i) := by
  rw [releases, List.filterMap_filterMap]
  refine List.filterMap_congr fun i _ => ?_
  cases dlls[i]? <;> rfl

end Release

/-- The configuration is taken without an exception exactly when each entry fits those before it; then
there is one service for each entry that has a type, the map finds them by their ids, and the list
has each of them once, by order. -/
theorem services_loaded (hsorts : K.Sorts) (path : List String) (config : List (String × TomlValue)) :
    ((loadServices K { path := path } config).2 = none ↔ Loadable K path [] (entries config)) ∧
    ∀ a, loadServices K { path := path } config = (a, none) →
      List.Forall₂ (Loads K path) (complete (entries config)) a.services ∧
      (∀ id i, a.serviceMap.get id = some i ↔ ∃ s, a.services[i]? = some s ∧ s.id = id) ∧
      a.serviceSort.Perm (List.range a.services.length) ∧
      a.serviceSort.Pairwise fun i j => a.order i ≤ a.order j := by
  rcases loadServices_cases hsorts path config with
    ⟨hable, b, sorted, hb, hperm, hordered, hload⟩ | ⟨hnot, b, error, hload⟩
  · refine ⟨⟨fun _ => hable, fun _ => by rw [hload]⟩, fun a ha => ?_⟩
    obtain rfl := (Prod.mk.inj (hload.symm.trans ha)).1
    exact ⟨hb.services, hb.map, hb.sort ▸ hperm, hordered⟩
  · refine ⟨⟨fun hnone => ?_, fun hable => absurd hable hnot⟩, fun a ha => ?_⟩
    · rw [hload] at hnone
      cases hnone
    · rw [hload] at ha
      cases (Prod.mk.inj ha).2

def plain : Platform ℕ ℕ where
  serviceLoad := fun p => some p.length
  serviceApi := fun handle symbol => some (handle + symbol.length)
  serviceError := "missing"
  construct := fun _ _ => .ok {}
  sort := fun order l => l.insertionSort fun i j => order i ≤ order j

lemma plain_sorts : plain.Sorts := by
  intro order l
  have : Std.Total fun i j : ℕ => order i ≤ order j := ⟨fun i j => UInt32.le_total (order i) (order j)⟩
  have : IsTrans ℕ fun i j => order i ≤ order j := ⟨fun i j k => UInt32.le_trans⟩
  exact ⟨List.perm_insertionSort _ _, List.pairwise_insertionSort _ _⟩

/-- Two services from one library, of which the second comes first. -/
def firstAndSecond : List (String × TomlValue) :=
  [("services", .array
    [.table [("name", .string "first"), ("id", .integer 7), ("type", .string "gate"),
      ("order", .integer 2)],
    .table [("name", .string "second"), ("id", .integer 8), ("type", .string "gate")]])]

theorem services_loaded_two : ∃ a : Application ℕ ℕ,
    loadServices plain { path := [] } firstAndSecond = (a, none) ∧ a.serviceSort = [1, 0] ∧
      Loadable plain [] [] (entries firstAndSecond) ∧ a.serviceSort.Perm (List.range 2) := by
  obtain ⟨a, hload, hsort, hlength⟩ : ∃ a : Application ℕ ℕ,
      loadServices plain { path := [] } firstAndSecond = (a, none) ∧ a.serviceSort = [1, 0] ∧
        a.services.length = 2 := ⟨_, rfl, rfl, rfl⟩
  obtain ⟨hable, hfacts⟩ := services_loaded plain_sorts [] firstAndSecond
  exact ⟨a, hload, hsort, hable.mp (by rw [hload]), hlength ▸ (hfacts a hload).2.2.1⟩

/-- Whatever the updates have changed in the services but `type_`, by which a service's library is found,
`release_services` gives each object that a library has made back to this library, once, by order; no
library is loaded twice, and none is unloaded while there are objects of it. -/
theorem services_released (hsorts : K.Sorts) {config : List (String × TomlValue)}
    (h : loadServices K { path := path } config = (a, none)) (updated : List Service)
    (hupdated : updated.map Service.type = a.services.map Service.type) :
    ∃ dlls b, List.Forall₂ (fun s dll => library K path s.type = some dll) a.services dlls ∧
      releaseServices K { a with services := updated } = (b, none) ∧
      b.events.filterMap Event.created = (dlls.zipIdx.map fun x => (x.1.create, x.2)) ∧
      b.events.filterMap Event.released =
        (a.serviceSort.filterMap fun i => dlls[i]?.map fun dll => (dll.release, i)) ∧
      (b.events.filterMap Event.loaded).Nodup ∧ ∀ x ∈ b.events, x.isUnload = false := by
  rcases loadServices_cases hsorts path config with
    ⟨-, b, sorted, hb, hperm, -, hload⟩ | ⟨-, b, error, hload⟩
  · obtain rfl := (Prod.mk.inj (hload.symm.trans h)).1
    obtain ⟨dlls, hdlls, hcreated⟩ := hb.created
    have hknown : ∀ i ∈ sorted, ∃ s dll, updated[i]? = some s ∧ dlls[i]? = some dll ∧
        b.serviceDllMap.get s.type = some dll := by
      intro i hi
      have hlt : i < b.services.length := by
        rw [← List.mem_range, ← hb.sort]
        exact hperm.subset hi
      have hsame : updated.length = b.services.length := by
        simpa using congrArg List.length hupdated
      have hupd : i < updated.length := hsame ▸ hlt
      have hdll : i < dlls.length := hdlls.length_eq ▸ hlt
      have htype : updated[i].type = b.services[i].type := by
        have := congrArg (fun types => types[i]?) hupdated
        simpa [hlt, hsame] using this
      refine ⟨updated[i], dlls[i], ?_, ?_, ?_⟩
      · exact List.getElem?_eq_getElem _
      · exact List.getElem?_eq_getElem _
      · rw [htype]
        exact hdlls.get hlt _
    let released : Application H F := { b with
      services := updated
      serviceSort := []
      serviceMap := ∅
      events := b.events ++ releases dlls sorted }
    have hevents : released.events = b.events ++ releases dlls sorted := rfl
    refine ⟨dlls, released, hdlls.imp fun s dll hget => hb.found s.type dll hget, ?_, ?_, ?_, ?_, ?_⟩
    · rw [releaseServices, releaseLoop_eq hknown]
    · rw [hevents, List.filterMap_append, releases_created, List.append_nil, hcreated]
    · rw [hevents, List.filterMap_append, releases_released,
        List.filterMap_eq_nil_iff.mpr fun x hx => (hb.kept x hx).2, List.nil_append]
    · rw [hevents, List.filterMap_append, releases_loaded, List.append_nil]
      exact hb.loaded.1
    · intro x hx
      rcases List.mem_append.mp hx with hx | hx
      · exact (hb.kept x hx).1
      · obtain ⟨fn, i, rfl⟩ := mem_releases hx
        rfl
  · rw [hload] at h
    cases (Prod.mk.inj h).2

def renamed (s : Service) : Service := { s with name := "renamed", order := 7, interval := 3 }

theorem services_released_two : ∃ a b : Application ℕ ℕ,
    loadServices plain { path := [] } firstAndSecond = (a, none) ∧
      releaseServices plain { a with services := a.services.map renamed } = (b, none) ∧
      b.events.filterMap Event.released = [(21, 1), (21, 0)] := by
  obtain ⟨a, s, t, hload, hsort, hservices, hs, ht⟩ : ∃ (a : Application ℕ ℕ) (s t : Service),
      loadServices plain { path := [] } firstAndSecond = (a, none) ∧ a.serviceSort = [1, 0] ∧
        a.services = [s, t] ∧ s.type = "gate" ∧ t.type = "gate" :=
    ⟨_, _, _, rfl, rfl, rfl, rfl, rfl⟩
  obtain ⟨dlls, b, hdlls, hrelease, -, hreleased, -⟩ :=
    services_released plain_sorts hload (a.services.map renamed) (List.map_map ..)
  refine ⟨a, b, hload, hrelease, ?_⟩
  have hlib : library plain [] "gate" = some ⟨9, 20, 21⟩ := rfl
  rw [hservices, List.forall₂_cons_left_iff] at hdlls
  obtain ⟨d, rest, hd, hrest, rfl⟩ := hdlls
  obtain ⟨d', rest, hd', hnil, rfl⟩ := List.forall₂_cons_left_iff.mp hrest
  rw [hs, hlib] at hd
  rw [ht, hlib] at hd'
  obtain rfl := Option.some.inj hd
  obtain rfl := Option.some.inj hd'
  rw [hreleased, hsort]
  rfl

end Application

end Simple
