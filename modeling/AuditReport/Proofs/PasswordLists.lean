import AuditReport.Proofs.CredentialFaults
import AuditReport.Proofs.DeniedCallers
import AuditReport.Proofs.OrderedLists

/-! The lists of passwords. As long as the stored credentials stay as they are, a cached list is the
one that would be made anew, so that the list of all passwords and those of single providers agree
whatever was asked before. -/

namespace AuditReport

open Fallible

namespace Lists

theorem documents_map (docs : List Document) : documents (docs.map .object) = .ok docs := by
  unfold documents
  rw [mapM_ok_iff, List.forall₂_map_left_iff]
  exact List.forall₂_same.mpr fun _ _ => rfl

theorem mem_held {suffix : String} {docs : List Document} {p : String} {v : Value} :
    (p, v) ∈ held suffix docs ↔ p ∈ Audit.providers ∧ v.isEmpty = false ∧
      ∃ d ∈ docs, d.get (credentialField p suffix) = v := by
  unfold held
  simp only [List.mem_flatMap, List.mem_filterMap, Option.ite_none_left_eq_some,
    Option.some.injEq, Prod.mk.injEq, Bool.not_eq_true]
  constructor
  · rintro ⟨d, hd, q, hq, hfilled, rfl, rfl⟩
    exact ⟨hq, hfilled, d, hd, rfl⟩
  · rintro ⟨hp, hfilled, d, hd, rfl⟩
    exact ⟨d, hd, p, hp, hfilled, rfl, rfl⟩

/-- A stored password with its provider, as a document. -/
def asItem (stored : String × Value) : Document :=
  [("password", stored.2), ("ota_type", .text stored.1)]

theorem storedPasswords_map (docs : List Document) :
    storedPasswords (docs.map .object) =
      .ok (((held "password" docs).map asItem).map .object) := by
  unfold storedPasswords
  rw [documents_map, List.map_map]
  rfl

end Lists

namespace Resolver

open AuditReport.Lists

variable {T : Type} {first r : Resolver T} {docs : List Document}
  {decrypt : String → Except DecryptionError String}

/-! ## The list under a key -/

/-- A password that decrypts, stored for one of the providers. -/
def IsStored (decrypt : String → Except DecryptionError String) (docs : List Document)
    (i : PasswordItem) : Prop :=
  i.otaType ∈ Audit.providers ∧ ∃ d ∈ docs, ∃ s,
    d.get (credentialField i.otaType "password") = .text s ∧ s.isEmpty = false ∧
      decrypt s = .ok i.password

/-- Nothing but texts stands in the place of passwords. -/
def HoldsTexts (docs : List Document) : Prop :=
  ∀ d ∈ docs, ∀ p ∈ Audit.providers, d.get (credentialField p "password") = .null ∨
    ∃ s, d.get (credentialField p "password") = .text s

/-- Passwords of a provider belong into the list under a key. -/
def belongs (key provider : String) : Bool :=
  key == allPasswords || key == provider ++ "-passwords"

/-- What is stored of the list under a key. -/
def itemsUnder (docs : List Document) (key : String) : List Document :=
  ((held "password" docs).filter fun stored => belongs key stored.1).map asItem

/-- The list under a key, made anew. -/
def listUnder (decrypt : String → Except DecryptionError String) (docs : List Document)
    (key : String) : List PasswordItem :=
  sortItems ((itemsUnder docs key).filterMap (listed? decrypt))

theorem listed?_asItem {p : String} {v : Value} {i : PasswordItem} :
    listed? decrypt (asItem (p, v)) = some i ↔
      p = i.otaType ∧ ∃ s, v = .text s ∧ s.isEmpty = false ∧ decrypt s = .ok i.password := by
  obtain ⟨password, otaType⟩ := i
  have hget : (asItem (p, v)).get "password" = v := rfl
  have hprovider : (asItem (p, v)).get "ota_type" = .text p := rfl
  unfold listed?
  rw [hget, hprovider]
  cases v with
  | text s =>
    simp only [Value.text.injEq, exists_eq_left']
    cases s.isEmpty with
    | true => simp
    | false => cases decrypt s <;> simp [Except.toOption, and_comm]
  | _ => simp

theorem mem_listUnder {key : String} {i : PasswordItem} :
    i ∈ listUnder decrypt docs key ↔ belongs key i.otaType = true ∧ IsStored decrypt docs i := by
  unfold listUnder itemsUnder
  rw [mem_sortItems, List.filterMap_map, List.mem_filterMap]
  simp only [List.mem_filter, Function.comp_apply]
  constructor
  · rintro ⟨⟨p, v⟩, ⟨hmem, hkey⟩, hlisted⟩
    obtain ⟨hp, -, d, hd, hget⟩ := mem_held.mp hmem
    obtain ⟨rfl, s, rfl, hs, hdecrypt⟩ := listed?_asItem.mp hlisted
    exact ⟨hkey, hp, d, hd, s, hget, hs, hdecrypt⟩
  · rintro ⟨hkey, hp, d, hd, s, hget, hs, hdecrypt⟩
    refine ⟨(i.otaType, .text s), ⟨mem_held.mpr ⟨hp, hs, d, hd, hget⟩, hkey⟩, ?_⟩
    exact listed?_asItem.mpr ⟨rfl, s, rfl, hs, hdecrypt⟩

theorem belongs_all (p : String) : belongs allPasswords p = true := by simp [belongs]

theorem belongs_provider :
    ∀ p ∈ Audit.providers, ∀ q ∈ Audit.providers, belongs (p ++ "-passwords") q = (q == p) := by
  decide

theorem itemsUnder_all : itemsUnder docs allPasswords = (held "password" docs).map asItem := by
  have hall : (held "password" docs).filter (fun stored => belongs allPasswords stored.1) =
      held "password" docs := List.filter_eq_self.mpr fun stored _ => belongs_all stored.1
  rw [itemsUnder, hall]

theorem itemsUnder_provider {p : String} (hp : p ∈ Audit.providers) :
    itemsUnder docs (p ++ "-passwords") =
      ((held "password" docs).filter fun stored => stored.1 == p).map asItem := by
  unfold itemsUnder
  congr 1
  refine List.filter_congr fun stored hstored => ?_
  exact belongs_provider p hp stored.1 (mem_held.mp hstored).1

/-- A stored password with its provider is one of a provider. -/
def isOfProvider (p : String) (item : Value) : Bool :=
  match item.fields.get "ota_type" with
  | .text q => q == p
  | _ => false

theorem filter_isOfProvider (p : String) (found : List (String × Value)) :
    ((found.map asItem).map Value.object).filter (isOfProvider p) =
      ((found.filter fun stored => stored.1 == p).map asItem).map .object := by
  rw [List.map_map, List.filter_map, List.map_map]
  rfl

theorem scalars_itemsUnder (h : HoldsTexts docs) (key : String) :
    ∀ d ∈ itemsUnder docs key, (d.get "password").isScalar = true := by
  intro d hd
  obtain ⟨⟨p, v⟩, hmem, rfl⟩ := List.mem_map.mp hd
  obtain ⟨hp, -, c, hc, rfl⟩ := mem_held.mp (List.mem_filter.mp hmem).1
  show (c.get (credentialField p "password")).isScalar = true
  rcases h c hc p hp with hv | ⟨s, hv⟩ <;> rw [hv] <;> rfl

/-! ## The resolver -/

/-- Every list in the cache is the one that would be made anew. -/
structure ListsRight (first : Resolver T) (docs : List Document) (r : Resolver T) : Prop where
  sound : Sound first r
  right : r.lists.All fun key items => items = some (listUnder first.decrypt docs key)

theorem ListsRight.invalidate (h : ListsRight first docs r) : ListsRight first docs r.invalidate :=
  ⟨h.sound.invalidate, TimedCache.all_clear _⟩

section

variable [LE T] [DecidableLE T] {now : T}

theorem listsRight_liveList (key : String) :
    Preserves (ListsRight first docs) (liveList now key) :=
  fun r h => ⟨keeps_liveList key r h.sound, h.right.get.2⟩

theorem ListsRight.live (h : ListsRight first docs r) {key : String} {items : List PasswordItem}
    (hlive : (r.lists.get now key).1 = some items) :
    items = listUnder first.decrypt docs key :=
  Option.some.inj (h.right.get.1 items hlive)

end

variable [LE T] [DecidableLE T] [Timeline T] {now : T}

theorem preserves_lists_decryptKeys (lists : TimedCache T String (List PasswordItem))
    (keys : List Key) : Preserves (fun r => r.lists = lists) (decryptKeys now keys) := by
  intro r h
  rw [decryptKeys_run]
  dsimp only
  split <;> exact h

theorem preserves_lists_resolveRows (lists : TimedCache T String (List PasswordItem))
    (rows : List Value) : Preserves (fun r => r.lists = lists) (resolveRows now rows) := by
  refine (preserves_ofExcept _).bind fun ds => Preserves.bind ?_ fun _ => preserves_ofExcept _
  unfold decryptValues
  split
  · exact preserves_lists_decryptKeys lists _
  · exact preserves_throw _

theorem preserves_lists_decryptItems (lists : TimedCache T String (List PasswordItem))
    (items : List Value) : Preserves (fun r => r.lists = lists) (decryptItems now items) :=
  (preserves_ofExcept _).bind fun keys => (preserves_lists_decryptKeys lists keys).bind fun _ =>
    (preserves_ofExcept _).bind fun _ => preserves_pure _

theorem listsRight_resolveRows (hw : SharesWork first) (rows : List Value) :
    Preserves (ListsRight first docs) (resolveRows now rows) := by
  intro r h
  refine ⟨keeps_resolveRows hw rows r h.sound, ?_⟩
  rw [preserves_lists_resolveRows r.lists rows r rfl]
  exact h.right

/-- A time at which it can be told when what is set now expires. -/
structure Tells (first : Resolver T) (now : T) : Prop where
  values : (Timeline.after? now first.values.ttl).isSome = true
  lists : (Timeline.after? now first.lists.ttl).isSome = true

/-- A list that is made anew is the one under its key, and the caches stay right. -/
theorem ListsRight.newList (h : ListsRight first docs r) (hw : SharesWork first)
    (htexts : HoldsTexts docs) (hnow : Tells first now) (key : String) :
    let out := (Resolver.newList now key ((itemsUnder docs key).map .object)).run.run r
    out.1 = .ok (listUnder first.decrypt docs key) ∧ ListsRight first docs out.2 := by
  have hprovider : ∀ d ∈ itemsUnder docs key, ∃ p, d.get? "ota_type" = some (.text p) := by
    intro d hd
    obtain ⟨stored, -, rfl⟩ := List.mem_map.mp hd
    exact ⟨stored.1, rfl⟩
  have hitems := (decryptItems_of_texts hw hnow.values h.sound hprovider).1
    (scalars_itemsUnder htexts key)
  have hresult := newList_result hw h.sound hnow.lists key ((itemsUnder docs key).map .object)
  refine ⟨hresult.trans hitems, keeps_newList hw key _ r h.sound, ?_⟩
  have hkept : ((decryptItems now ((itemsUnder docs key).map .object)).run.run r).2.lists =
      r.lists := preserves_lists_decryptItems r.lists _ r rfl
  rw [newList_run hitems]
  dsimp only
  rw [hkept]
  exact h.right.set rfl

end Resolver

/-! ## The backend -/

namespace Backend

open Resolver AuditReport.Lists

variable {T α : Type} {first : Resolver T} {docs : List Document} {b : Backend T}

theorem run_credentials {found : List Value}
    (h : b.store.find credentialsCollection = .ok found) {fields : List String} :
    ((credentials fields).run.run b).1 = .ok found := by
  unfold credentials find
  rw [run_bind, record, run_modify]
  dsimp only
  rw [run_bind, run_get]
  dsimp only
  rw [run_ofExcept, h]
  rfl

section

variable [Timeline T]

/-- The store holds some credentials, and what is cached is what they come to. -/
structure Current (first : Resolver T) (docs : List Document) (b : Backend T) : Prop where
  lists : ListsRight first docs b.resolver
  stored : b.store.find credentialsCollection = .ok (docs.map .object)
  tells : Tells first b.now

theorem current_record (call : StoreCall) : Preserves (Current first docs) (record call) :=
  preserves_modify fun _ h => ⟨h.lists, h.stored, h.tells⟩

theorem current_resolve {work : T → Resolver.Action T α}
    (h : ∀ now, Tells first now → Preserves (ListsRight first docs) (work now)) :
    Preserves (Current first docs) (resolve work) :=
  fun b hb => ⟨h b.now hb.tells b.resolver hb.lists, hb.stored, hb.tells⟩

theorem current_find (what collection : String) (projection : Document) :
    Preserves (Current first docs) (find what collection projection) :=
  (current_record _).bind fun _ => preserves_get.bind fun _ => preserves_ofExcept _

theorem current_findNamed (collection : String) :
    Preserves (Current first docs) (findNamed collection) :=
  (current_find _ _ _).bind fun _ => (current_record _).bind fun _ => preserves_pure _

theorem current_distinct (what collection field : String) :
    Preserves (Current first docs) (distinct what collection field) :=
  (current_record _).bind fun _ => preserves_get.bind fun _ => preserves_ofExcept _

theorem current_aggregate (collection : String) (timeout : Int) (p : Pipeline) :
    Preserves (Current first docs) (aggregate collection timeout p) :=
  (current_record _).bind fun _ => preserves_get.bind fun _ => preserves_ofExcept _

theorem current_runPage (collection : String) (timeout : Int) (p : Pipeline) :
    Preserves (Current first docs) (runPage collection timeout p) := by
  have hrest : Preserves (Current first docs) (do
      ofExcept ((Page.ofAnswer (← aggregate collection timeout p)).mapError .crashed) :
      Backend.Action T Page) :=
    (current_aggregate _ _ _).bind fun _ => preserves_ofExcept _
  unfold runPage
  split
  · exact (preserves_throw _).bind fun _ => hrest
  · exact hrest

theorem current_runExport (collection : String) (timeout : Int) (p : Pipeline) :
    Preserves (Current first docs) (runExport collection timeout p) := by
  unfold runExport
  split
  · exact (preserves_throw _).bind fun _ => current_aggregate _ _ _
  · exact current_aggregate _ _ _

/-- Loads what is stored of the list under a key. -/
def Loads (first : Resolver T) (docs : List Document) (key : String)
    (load : Backend.Action T (List Value)) : Prop :=
  ∀ b, Current first docs b →
    (load.run.run b).1 = .ok ((itemsUnder docs key).map .object) ∧
      Current first docs (load.run.run b).2

theorem loads_all : Loads first docs allPasswords Backend.storedPasswords := by
  intro b h
  unfold Backend.storedPasswords
  rw [run_bind_ok (run_credentials h.stored), run_ofExcept, storedPasswords_map, itemsUnder_all]
  exact ⟨rfl, current_find _ _ _ b h⟩

theorem loads_provider {p : String} (hp : p ∈ Audit.providers) :
    Loads first docs (p ++ "-passwords") do
      return (← Backend.storedPasswords).filter (isOfProvider p) := by
  intro b h
  obtain ⟨hall, hcurrent⟩ := loads_all b h
  rw [run_bind_ok hall]
  refine ⟨congrArg Except.ok ?_, hcurrent⟩
  rw [itemsUnder_all, itemsUnder_provider hp, filter_isOfProvider]

end

variable [LE T] [DecidableLE T] [Timeline T]

/-- The list under a key is answered, be it live or not, and everything stays current. -/
theorem Current.passwordList (h : Current first docs b) (hw : SharesWork first)
    (htexts : HoldsTexts docs) {key : String} {load : Backend.Action T (List Value)}
    (hload : Loads first docs key load) :
    let out := (Backend.passwordList key load).run.run b
    out.1 = .ok (listUnder first.decrypt docs key) ∧ Current first docs out.2 := by
  have hlive : Current first docs ((resolve (Resolver.liveList · key)).run.run b).2 :=
    current_resolve (fun now _ => listsRight_liveList key) b h
  have hanswer : ((resolve (Resolver.liveList · key)).run.run b).1 =
      .ok (b.resolver.lists.get b.now key).1 := rfl
  unfold Backend.passwordList
  cases hget : (b.resolver.lists.get b.now key).1 with
  | some items =>
    rw [run_bind_ok (hanswer.trans (congrArg _ hget)), ← h.lists.live hget]
    exact ⟨rfl, hlive⟩
  | none =>
    obtain ⟨hstored, hloaded⟩ := hload _ hlive
    rw [run_bind_ok (hanswer.trans (congrArg _ hget))]
    dsimp only
    rw [run_bind_ok hstored]
    obtain ⟨hitems, hright⟩ := hloaded.lists.newList hw htexts hloaded.tells key
    exact ⟨hitems, hright, hloaded.stored, hloaded.tells⟩

theorem current_passwordList (hw : SharesWork first) (htexts : HoldsTexts docs) {key : String}
    {load : Backend.Action T (List Value)} (hload : Loads first docs key load) :
    Preserves (Current first docs) (Backend.passwordList key load) :=
  fun _ h => (h.passwordList hw htexts hload).2

end Backend

/-! ## The service -/

namespace Service

open Resolver AuditReport.Lists Backend

variable {T : Type} {first : Resolver T} {docs : List Document} {s : Service} {u : User}
  {b : Backend T}

theorem current_named [Timeline T] (collection : String) :
    Preserves (Current first docs) (named collection : Backend.Action T (List NamedItem)) :=
  (current_findNamed _).bind fun _ => preserves_ofExcept _

variable [LE T] [DecidableLE T] [Timeline T]

theorem current_page (hw : SharesWork first) (s : Service) (u : User) (q : ReportQuery) :
    Preserves (Current first docs) (s.page u q : Backend.Action T ReportPage) :=
  (preserves_ofExcept _).bind fun _ => (preserves_ofExcept _).bind fun _ =>
    (preserves_ofExcept _).bind fun _ => (current_runPage _ _ _).bind fun found =>
      (current_resolve fun _ _ => listsRight_resolveRows hw found.documents).bind fun _ =>
        (preserves_ofExcept _).bind fun _ => preserves_pure _

theorem current_table (hw : SharesWork first) (s : Service) (u : User) (r : ExportRequest) :
    Preserves (Current first docs) (s.table u r : Backend.Action T Table) :=
  (preserves_ofExcept _).bind fun _ => (preserves_ofExcept _).bind fun _ =>
    (preserves_ofExcept _).bind fun _ => (preserves_ofExcept _).bind fun _ =>
      (current_runExport _ _ _).bind fun docs =>
        (current_resolve fun _ _ => listsRight_resolveRows hw docs).bind fun _ =>
          preserves_ofExcept _

/-- Whatever is performed, for whomever, leaves a current backend current. -/
theorem current_perform (hw : SharesWork first) (htexts : HoldsTexts docs) (s : Service) (u : User)
    (operation : Operation) :
    Preserves (Current first docs) (s.perform u operation : Backend.Action T Answer) := by
  cases operation with
  | page q => exact (current_page hw s u q).map _
  | table r => exact (current_table hw s u r).map _
  | columns => exact ((preserves_ofExcept _).bind fun _ => preserves_pure _).map _
  | pairs part =>
    exact ((preserves_ofExcept _).bind fun _ => (current_find _ _ _).bind fun _ =>
      preserves_ofExcept _).map _
  | passwords =>
    exact ((preserves_ofExcept _).bind fun _ => current_passwordList hw htexts loads_all).map _
  | providerValues provider part =>
    exact ((preserves_ofExcept _).bind fun _ => (preserves_ofExcept _).bind fun _ =>
      (current_find _ _ _).bind fun _ => (preserves_ofExcept _).bind fun _ =>
        preserves_ofExcept _).map _
  | providerPasswords provider =>
    refine Preserves.map ((preserves_ofExcept _).bind fun _ => ?_) _
    -- Only a known provider gets as far as the list.
    by_cases hp : provider ∈ Audit.providers
    · exact (preserves_ofExcept _).bind fun _ =>
        (current_passwordList hw htexts (loads_provider hp)).bind fun _ => preserves_pure _
    · intro b h
      rw [checkProvider, if_neg (by simpa using hp)]
      exact h
  | contactEmails =>
    exact ((preserves_ofExcept _).bind fun _ => (current_distinct _ _ _).bind fun _ =>
      (preserves_ofExcept _).bind fun _ => preserves_ofExcept _).map _
  | portfolios => exact ((preserves_ofExcept _).bind fun _ => current_named _).map _
  | properties => exact ((preserves_ofExcept _).bind fun _ => current_named _).map _
  | clearCache =>
    exact ((preserves_ofExcept _).bind fun _ => preserves_modify fun _ h =>
      ⟨h.lists.invalidate, h.stored, h.tells⟩).bind fun _ => preserves_pure _

/-- Leaves the stored credentials as they are, and sets the clock only to times at which it can be
told when what is set then expires. -/
def Event.Keeps (first : Resolver T) (docs : List Document) : Event T → Prop
  | .asked _ _ => True
  | .stored next => next.find credentialsCollection = .ok (docs.map .object)
  | .timed now => Tells first now

theorem current_react (hw : SharesWork first) (htexts : HoldsTexts docs) {e : Event T}
    (he : e.Keeps first docs) (h : Current first docs b) : Current first docs (s.react b e).2 := by
  cases e with
  | asked caller operation => exact current_perform hw htexts s caller operation b h
  | stored next => exact ⟨h.lists, he, h.tells⟩
  | timed now => exact ⟨h.lists, h.stored, he⟩

theorem current_serve (hw : SharesWork first) (htexts : HoldsTexts docs) {history : List (Event T)}
    (hhistory : ∀ e ∈ history, e.Keeps first docs) (h : Current first docs b) :
    Current first docs (s.serve b history).2 := by
  induction history generalizing b with
  | nil => exact h
  | cons e rest ih =>
    obtain ⟨he, hrest⟩ := List.forall_mem_cons.mp hhistory
    exact ih hrest (current_react hw htexts he h)

theorem passwords_current (h : Current first docs b) (hw : SharesWork first)
    (htexts : HoldsTexts docs) (hu : s.authorizer u = true) :
    ((s.passwords u).run.run b).1 = .ok (listUnder first.decrypt docs allPasswords) := by
  unfold Service.passwords
  rw [authorize_allowed hu]
  exact (h.passwordList hw htexts loads_all).1

theorem providerPasswords_current (h : Current first docs b) (hw : SharesWork first)
    (htexts : HoldsTexts docs) (hu : s.authorizer u = true) {p : String}
    (hp : p ∈ Audit.providers) :
    ((s.providerPasswords u p).run.run b).1 =
      .ok (((listUnder first.decrypt docs (p ++ "-passwords")).map
        PasswordItem.password).eraseDups.mergeSort fun s t => !decide (t < s)) := by
  have hknown : checkProvider p = .ok () := if_pos (List.contains_iff_mem.mpr hp)
  have hlist := (h.passwordList hw htexts (loads_provider hp)).1
  unfold Service.providerPasswords
  rw [authorize_allowed hu, run_bind, run_ofExcept, hknown]
  exact congrArg Prod.fst (run_bind_ok hlist _)

/-- **Password lists agree.** As long as the stored credentials stay as they are, with texts or
nothing in the place of passwords, and whatever was asked before, by whomever and at whatever times:
the list of all passwords holds just the passwords that some document holds for a provider and that
decrypt, in strictly ascending order, and the list of a provider just those of that provider. -/
theorem password_lists_agree (s : Service) (u : User) (hu : s.authorizer u = true)
    (decrypt : String → Except DecryptionError String) (workers : Workers) (valueTtl listTtl : T)
    (hw : ∀ n, workers.chunkSize = some n → 0 ≤ n) (docs : List Document) (htexts : HoldsTexts docs)
    (store : Store) (hstore : store.find credentialsCollection = .ok (docs.map .object))
    (calls : List StoreCall) (start : T)
    (hstart : Tells (fresh decrypt workers valueTtl listTtl) start) (history : List (Event T))
    (hhistory : ∀ e ∈ history, e.Keeps (fresh decrypt workers valueTtl listTtl) docs) :
    let b := (s.serve ⟨store, calls, fresh decrypt workers valueTtl listTtl, start⟩ history).2
    (∃ items, ((s.passwords u).run.run b).1 = .ok items ∧ items.Pairwise ItemLess ∧
      ∀ i, i ∈ items ↔ IsStored decrypt docs i) ∧
    ∀ p ∈ Audit.providers, ∃ texts, ((s.providerPasswords u p).run.run b).1 = .ok texts ∧
      texts.Pairwise (· < ·) ∧ ∀ w, w ∈ texts ↔ IsStored decrypt docs ⟨w, p⟩ := by
  intro b
  have hw : SharesWork (fresh decrypt workers valueTtl listTtl) := hw
  have hright : ListsRight (fresh decrypt workers valueTtl listTtl) docs
      (fresh decrypt workers valueTtl listTtl) :=
    ⟨sound_fresh decrypt workers valueTtl listTtl, TimedCache.all_empty listTtl⟩
  have hcurrent : Current (fresh decrypt workers valueTtl listTtl) docs b :=
    current_serve hw htexts hhistory ⟨hright, hstore, hstart⟩
  constructor
  · refine ⟨_, passwords_current hcurrent hw htexts hu, pairwise_sortItems _, fun i => ?_⟩
    rw [mem_listUnder, belongs_all]
    exact and_iff_right rfl
  · intro p hp
    refine ⟨_, providerPasswords_current hcurrent hw htexts hu hp, text_orders.pairwise_sorted _,
      fun w => ?_⟩
    rw [mem_sorted, List.mem_map]
    simp only [mem_listUnder]
    constructor
    · rintro ⟨⟨_, q⟩, ⟨hq, hstored⟩, rfl⟩
      rw [belongs_provider p hp q hstored.1, beq_iff_eq] at hq
      exact hq ▸ hstored
    · intro hstored
      refine ⟨⟨w, p⟩, ⟨?_, hstored⟩, rfl⟩
      rw [belongs_provider p hp p hp, beq_self_eq_true]

/-- Two documents hold one password in two forms, and one that does not decrypt. Its list expires
once, and is dropped once. -/
theorem password_lists_agree_two_forms :
    let decrypt (s : String) : Except DecryptionError String :=
      if s = "c" ∨ s = "d" then .ok "p" else .error .noSeparator
    let docs : List Document :=
      [[("expedia_password", .text "d"), ("agoda_password", .text "x")],
        [("expedia_password", .text "c"), ("booking_password", .null)]]
    let s : Service := ⟨Audit.blueprint, superAdminsOnly, 30000⟩
    let admin : User := ⟨some "u-1", some "super_admin"⟩
    let store : Store := { Store.empty with find := fun _ => .ok (docs.map .object) }
    let history : List (Event Int) :=
      [.asked admin .passwords, .timed 400, .asked admin (.providerPasswords "expedia"),
        .asked admin .clearCache, .stored store, .asked admin .passwords]
    let b := (s.serve ⟨store, [], fresh decrypt ⟨2, none⟩ 300 300, 7⟩ history).2
    ((s.passwords admin).run.run b).1 = .ok [⟨"p", "expedia"⟩] ∧
      ((s.providerPasswords admin "agoda").run.run b).1 = .ok [] := by
  intro decrypt docs s admin store history b
  have hvalues : ∀ d ∈ docs, ∀ p ∈ Audit.providers, d.get (credentialField p "password") = .null ∨
      d.get (credentialField p "password") = .text "x" ∨
      p = "expedia" ∧ (d.get (credentialField p "password") = .text "c" ∨
        d.get (credentialField p "password") = .text "d") := by
    simp [docs, Audit.providers, credentialField, Document.get, Document.get?]
  have htexts : HoldsTexts docs := by
    intro d hd p hp
    rcases hvalues d hd p hp with h | h | ⟨-, h | h⟩
    · exact .inl h
    all_goals exact .inr ⟨_, h⟩
  have hstored : ∀ i, IsStored decrypt docs i ↔ i = ⟨"p", "expedia"⟩ := by
    intro i
    constructor
    · rintro ⟨hp, d, hd, t, ht, -, hdecrypt⟩
      obtain ⟨password, provider⟩ := i
      rcases hvalues d hd _ hp with h | h | ⟨rfl, h | h⟩ <;> cases ht.symm.trans h <;>
        cases hdecrypt <;> rfl
    · rintro rfl
      exact ⟨by decide, _, List.mem_cons_self, "d", rfl, rfl, rfl⟩
  have hkept : ∀ e ∈ history, e.Keeps (fresh decrypt ⟨2, none⟩ 300 300) docs := by
    simp only [history, List.forall_mem_cons]
    exact ⟨trivial, ⟨rfl, rfl⟩, trivial, trivial, rfl, trivial, List.forall_mem_nil _⟩
  obtain ⟨⟨items, hitems, hascending, hmem⟩, hproviders⟩ := password_lists_agree s admin (by decide)
    decrypt ⟨2, none⟩ (300 : Int) 300 (by simp) docs htexts store rfl [] 7 ⟨rfl, rfl⟩ history hkept
  obtain ⟨texts, hanswer, -, hmem'⟩ := hproviders "agoda" (by decide)
  constructor
  · rw [hitems]
    refine congrArg _ (item_orders.unique hascending (List.pairwise_singleton _ _) fun i => ?_)
    rw [hmem, hstored, List.mem_singleton]
  · rw [hanswer]
    refine congrArg _ (List.eq_nil_iff_forall_not_mem.mpr fun w hw => ?_)
    rw [hmem', hstored] at hw
    have hprovider : "agoda" = "expedia" := congrArg PasswordItem.otaType hw
    exact absurd hprovider (by decide)

end Service

end AuditReport
