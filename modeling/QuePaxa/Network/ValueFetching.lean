import QuePaxa.Core.Types
import QuePaxa.Library.Mutation
import QuePaxa.Library.OrderedMap
import QuePaxa.Library.Runs

/-! The availability guard of a recorder: payloads that are missing from a shared store are
fetched from several nodes, verified and stored before a proposal is acknowledged. The store is
not locked while a call fetches, and other calls and other users of the store act meanwhile. -/
namespace QuePaxa
open Library
variable {V : Type}
variable {values : List (V × List UInt8)}

structure Batch (V : Type) where
  valueId : V
  payload : List UInt8
  deriving DecidableEq, Repr

abbrev BatchVerifier (V : Type) := V → List UInt8 → Result Unit

namespace TlsBatchFetcher
variable [DecidableEq V]

/-- The batches of one node: requested, not returned before, and verified, or none at all. -/
def takeBatches (verify : BatchVerifier V) (valueIds : List V) :
    List (V × List UInt8) → List (Batch V) → Option (List (V × List UInt8))
  | returned, [] => some returned
  | returned, batch :: rest =>
    if batch.valueId ∉ valueIds ∨ batch.valueId ∈ returned.map Prod.fst ∨
        (verify batch.valueId batch.payload).isOk = false then none
    else takeBatches verify valueIds (returned ++ [(batch.valueId, batch.payload)]) rest

def fetchFrom (verify : BatchVerifier V) (valueIds : List V) :
    QuePaxaError → List (Result (List (Batch V))) → Result (List (V × List UInt8))
  | lastError, [] => .error lastError
  | _, .error e :: rest => fetchFrom verify valueIds e rest
  | _, .ok batches :: rest =>
    match takeBatches verify valueIds [] batches with
    | some returned =>
      if ∀ requested ∈ valueIds, requested ∈ returned.map Prod.fst then .ok returned
      else fetchFrom verify valueIds .missingValue rest
    | none => fetchFrom verify valueIds .missingValue rest

def fetchValues (verify : BatchVerifier V) (responses : List (Result (List (Batch V)))) (valueIds : List V) :
    Result (List (V × List UInt8)) :=
  fetchFrom verify valueIds .missingValue responses

variable {verify : BatchVerifier V} {valueIds : List V}

private theorem takeBatches_some {returned : List (V × List UInt8)} {batches : List (Batch V)}
    (h : takeBatches verify valueIds returned batches = some values)
    (hreturned : ∀ x ∈ returned, x.1 ∈ valueIds ∧ verify x.1 x.2 = .ok ()) :
    ∀ x ∈ values, x.1 ∈ valueIds ∧ verify x.1 x.2 = .ok () := by
  induction batches generalizing returned with
  | nil =>
    cases h
    exact hreturned
  | cons batch rest ih =>
    simp only [takeBatches] at h
    split_ifs at h with hbad
    obtain ⟨hmem, _, hverified⟩ : batch.valueId ∈ valueIds ∧ batch.valueId ∉ returned.map Prod.fst ∧
        (verify batch.valueId batch.payload).isOk = true := by simpa using hbad
    refine ih h fun x hx => ?_
    rcases List.mem_append.mp hx with hx | hx
    · exact hreturned x hx
    · rw [List.mem_singleton.mp hx]
      refine ⟨hmem, ?_⟩
      cases hv : verify batch.valueId batch.payload with
      | ok u => rfl
      | error e =>
        rw [hv] at hverified
        cases hverified

private theorem fetchFrom_ok {lastError : QuePaxaError} {responses : List (Result (List (Batch V)))}
    (h : fetchFrom verify valueIds lastError responses = .ok values) :
    ∀ x ∈ values, x.1 ∈ valueIds ∧ verify x.1 x.2 = .ok () := by
  induction responses generalizing lastError with
  | nil => cases h
  | cons response rest ih =>
    cases response with
    | error e => exact ih h
    | ok batches =>
      simp only [fetchFrom] at h
      cases htaken : takeBatches verify valueIds [] batches with
      | none =>
        simp only [htaken] at h
        exact ih h
      | some returned =>
        simp only [htaken] at h
        split_ifs at h
        · cases h
          exact takeBatches_some htaken fun x hx => absurd hx List.not_mem_nil
        · exact ih h

end TlsBatchFetcher

structure InMemoryValueStore (V : Type) [LinearOrder V] where
  values : OrderedMap V (List UInt8)

namespace InMemoryValueStore
variable [LinearOrder V]

def contains (store : InMemoryValueStore V) (valueId : V) : Bool := store.values.contains valueId
def get (store : InMemoryValueStore V) (valueId : V) : Option (List UInt8) := store.values.get valueId

def insert (store : InMemoryValueStore V) (valueId : V) (batch : List UInt8) : InMemoryValueStore V :=
  ⟨store.values.orInsert valueId batch⟩

private theorem get_insert (store : InMemoryValueStore V) (valueId id : V) (batch : List UInt8) :
    (store.insert valueId batch).get id =
      if id = valueId then some ((store.get valueId).getD batch) else store.get id :=
  OrderedMap.get_orInsert ..

private theorem contains_iff (store : InMemoryValueStore V) (valueId : V) :
    store.contains valueId = true ↔ ∃ payload, store.get valueId = some payload :=
  OrderedMap.contains_iff ..

def GrowsBy (store later : InMemoryValueStore V) (added : V → List UInt8 → Prop) : Prop :=
  ∀ id, later.get id = store.get id ∨ store.get id = none ∧ ∃ payload, later.get id = some payload ∧ added id payload

section
variable {store later : InMemoryValueStore V} {added : V → List UInt8 → Prop}

theorem GrowsBy.refl (store : InMemoryValueStore V) (added : V → List UInt8 → Prop) : store.GrowsBy store added :=
  fun _ => .inl rfl

private theorem GrowsBy.imp {added' : V → List UInt8 → Prop} (h : store.GrowsBy later added)
    (himp : ∀ id payload, added id payload → added' id payload) : store.GrowsBy later added' := by
  intro id
  rcases h id with hsame | ⟨hnone, payload, hpayload, hadded⟩
  · exact .inl hsame
  · exact .inr ⟨hnone, payload, hpayload, himp id payload hadded⟩

theorem GrowsBy.insert (h : store.GrowsBy later added) {valueId : V} {batch : List UInt8}
    (hadded : added valueId batch) :
    store.GrowsBy (later.insert valueId batch) added := by
  intro id
  rw [get_insert]
  by_cases hid : id = valueId
  · subst hid
    rw [if_pos rfl]
    rcases h id with hsame | ⟨hnone, payload, hpayload, hold⟩
    · cases hget : store.get id with
      | some held =>
        left
        rw [hsame, hget, Option.getD_some]
      | none => exact .inr ⟨rfl, batch, by rw [hsame, hget, Option.getD_none], hadded⟩
    · exact .inr ⟨hnone, payload, by rw [hpayload, Option.getD_some], hold⟩
  · rw [if_neg hid]
    exact h id

theorem GrowsBy.get (h : store.GrowsBy later added) {id : V} {payload : List UInt8}
    (hget : store.get id = some payload) :
    later.get id = some payload := by
  rcases h id with hsame | ⟨hnone, _⟩
  · rw [hsame, hget]
  · rw [hnone] at hget
    cases hget

theorem GrowsBy.contains (h : store.GrowsBy later added) {id : V} (hid : store.contains id = true) :
    later.contains id = true := by
  obtain ⟨payload, hget⟩ := (contains_iff store id).mp hid
  exact (contains_iff later id).mpr ⟨payload, h.get hget⟩

private theorem GrowsBy.new (h : store.GrowsBy later added) {id : V} {payload : List UInt8}
    (hnone : store.get id = none)
    (hget : later.get id = some payload) : added id payload := by
  rcases h id with hsame | ⟨_, payload', hpayload, hadded⟩
  · rw [hsame, hnone] at hget
    cases hget
  · rw [hpayload] at hget
    cases hget
    exact hadded

end
end InMemoryValueStore

inductive EnsureAvailable (V : Type) where
  | asked (valueIds : List V)
  | fetching (valueIds missing : List V)
  | fetched (valueIds missing : List V) (values : List (V × List UInt8))
  | returned (valueIds : List V) (result : Result Unit)

structure FetchingAvailability (V : Type) [LinearOrder V] where
  store : InMemoryValueStore V
  storePoisoned : Bool
  fetcherPoisoned : Bool
  calls : List (EnsureAvailable V)

namespace FetchingAvailability
variable [LinearOrder V]

def missing (store : InMemoryValueStore V) (valueIds : List V) : List V :=
  ((valueIds.filter fun valueId => !store.contains valueId).insertionSort (· ≤ ·)).dedup

def look (guard : FetchingAvailability V) (valueIds : List V) : EnsureAvailable V :=
  if guard.storePoisoned then .returned valueIds (.error (.transportError "value store lock was poisoned"))
  else if missing guard.store valueIds = [] then .returned valueIds (.ok ())
  else .fetching valueIds (missing guard.store valueIds)

def fetch (verify : BatchVerifier V) (guard : FetchingAvailability V) (responses : List (Result (List (Batch V))))
    (valueIds missing : List V) : EnsureAvailable V :=
  if guard.fetcherPoisoned then .returned valueIds (.error (.transportError "value fetcher lock was poisoned"))
  else match TlsBatchFetcher.fetchValues verify responses missing with
    | .error e => .returned valueIds (.error e)
    | .ok values => .fetched valueIds missing values

def storeEach (requested : List V) : List V → List (V × List UInt8) → EStateM QuePaxaError (InMemoryValueStore V) Unit
  | _, [] => pure ()
  | returned, (valueId, batch) :: rest =>
    if valueId ∉ requested ∨ valueId ∈ returned then
      throw (.invalidProposal "value fetcher returned an unexpected or duplicate value ID")
    else do
      modify (·.insert valueId batch)
      storeEach requested (valueId :: returned) rest

def accept (missing : List V) (values : List (V × List UInt8)) : EStateM QuePaxaError (InMemoryValueStore V) Unit := do
  storeEach missing [] values
  let store ← get
  if ∀ valueId ∈ missing, store.contains valueId = true then pure () else throw .missingValue

inductive Action (V : Type) where
  | call (valueIds : List V)
  | look (index : Nat)
  | fetch (index : Nat) (responses : List (Result (List (Batch V))))
  | accept (index : Nat)
  /-- Another user of the store. -/
  | insert (valueId : V) (batch : List UInt8)
  /-- A holder of a lock panics. -/
  | poisonStore
  | poisonFetcher

def put (guard : FetchingAvailability V) (i : Nat) (call : EnsureAvailable V) : FetchingAvailability V :=
  { guard with calls := guard.calls.set i call }

def step (verify : BatchVerifier V) (guard : FetchingAvailability V) : Action V → FetchingAvailability V
  | .call valueIds => { guard with calls := guard.calls ++ [.asked valueIds] }
  | .look i =>
    match guard.calls[i]? with
    | some (.asked valueIds) => guard.put i (guard.look valueIds)
    | _ => guard
  | .fetch i responses =>
    match guard.calls[i]? with
    | some (.fetching valueIds missing) => guard.put i (guard.fetch verify responses valueIds missing)
    | _ => guard
  | .accept i =>
    match guard.calls[i]? with
    | some (.fetched valueIds missing values) =>
      if guard.storePoisoned then
        guard.put i (.returned valueIds (.error (.transportError "value store lock was poisoned")))
      else
        { guard with store := after (accept missing values) guard.store }.put i
          (.returned valueIds (result (accept missing values) guard.store))
    | _ => guard
  | .insert valueId batch => { guard with store := guard.store.insert valueId batch }
  | .poisonStore => { guard with storePoisoned := true }
  | .poisonFetcher => { guard with fetcherPoisoned := true }

variable {verify : BatchVerifier V} {guard : FetchingAvailability V}
variable {store : InMemoryValueStore V}

private theorem mem_missing {valueIds : List V} {id : V} :
    id ∈ missing store valueIds ↔ id ∈ valueIds ∧ store.contains id = false := by
  simp [missing]

private theorem storeEach_grows {added : V → List UInt8 → Prop} (requested : List V) {returned : List V}
    (hadded : ∀ x ∈ values, added x.1 x.2) :
    Keeps (store.GrowsBy · added) (storeEach requested returned values) := by
  induction values generalizing returned with
  | nil => exact Keeps.pure ()
  | cons value rest ih =>
    obtain ⟨valueId, batch⟩ := value
    refine Keeps.ite (fun _ => Keeps.throw _) fun _ => ?_
    refine Keeps.bind (Keeps.modify fun later hlater => ?_) fun _ => ?_
    · exact hlater.insert (hadded _ List.mem_cons_self)
    · exact ih fun x hx => hadded x (List.mem_cons_of_mem _ hx)

theorem accept_grows (store : InMemoryValueStore V) (missing : List V) (values : List (V × List UInt8)) :
    store.GrowsBy (after (accept missing values) store) fun id payload => (id, payload) ∈ values := by
  have hkeeps : Keeps (store.GrowsBy · fun id payload => (id, payload) ∈ values) (accept missing values) := by
    refine Keeps.bind (storeEach_grows missing fun x hx => hx) fun _ => Keeps.bind Keeps.get fun later => ?_
    exact Keeps.ite (fun _ => Keeps.pure ()) fun _ => Keeps.throw _
  exact hkeeps.after (.refl store _)

private theorem accept_ok {missing : List V}
    (h : result (accept missing values) store = .ok ()) {id : V} (hid : id ∈ missing) :
    (after (accept missing values) store).contains id = true := by
  obtain ⟨later, hrun⟩ : ∃ later, accept missing values store = .ok () later := by
    simp only [result] at h
    split at h
    case h_1 later hrun => exact ⟨later, hrun⟩
    case h_2 => cases h
  rw [after_ok hrun]
  obtain ⟨_, stored, _, hrest⟩ := bind_eq_ok.mp hrun
  simp only [bind_apply, get_apply] at hrest
  split_ifs at hrest with hall
  · rw [pure_apply] at hrest
    cases hrest
    exact hall id hid
  · cases hrest

/-- What is known of a call: nothing is missing besides what it fetches, everything fetched is
requested and verified, and an answer `Ok` says that everything is stored. -/
def Sound (verify : BatchVerifier V) (store : InMemoryValueStore V) : EnsureAvailable V → Prop
  | .asked _ => True
  | .fetching valueIds missing =>
    (∀ id ∈ missing, id ∈ valueIds) ∧ ∀ id ∈ valueIds, id ∉ missing → store.contains id = true
  | .fetched valueIds missing values =>
    ((∀ id ∈ missing, id ∈ valueIds) ∧ ∀ id ∈ valueIds, id ∉ missing → store.contains id = true) ∧
      ∀ x ∈ values, x.1 ∈ missing ∧ verify x.1 x.2 = .ok ()
  | .returned valueIds result => result = .ok () → ∀ id ∈ valueIds, store.contains id = true

private theorem Sound.mono {later : InMemoryValueStore V} {call : EnsureAvailable V} (h : Sound verify store call)
    (hgrows : ∀ id, store.contains id = true → later.contains id = true) : Sound verify later call := by
  cases call with
  | asked valueIds => trivial
  | fetching valueIds missing => exact ⟨h.1, fun id hid hmissing => hgrows id (h.2 id hid hmissing)⟩
  | fetched valueIds missing values =>
    obtain ⟨⟨hrequested, hheld⟩, hvalues⟩ := h
    exact ⟨⟨hrequested, fun id hid hmissing => hgrows id (hheld id hid hmissing)⟩, hvalues⟩
  | returned valueIds result => exact fun hok id hid => hgrows id (h hok id hid)

private theorem sound_look (valueIds : List V) : Sound verify guard.store (guard.look valueIds) := by
  have hheld : ∀ id ∈ valueIds, id ∉ missing guard.store valueIds → guard.store.contains id = true := by
    intro id hid hmissing
    by_contra hcontains
    exact hmissing (mem_missing.mpr ⟨hid, Bool.eq_false_iff.mpr hcontains⟩)
  rw [look]
  split_ifs with hpoisoned hnone
  · intro hok
    cases hok
  · intro _ id hid
    refine hheld id hid ?_
    rw [hnone]
    exact List.not_mem_nil
  · exact ⟨fun id hid => (mem_missing.mp hid).1, hheld⟩

private theorem sound_fetch (responses : List (Result (List (Batch V)))) {valueIds missing : List V}
    (h : Sound verify guard.store (.fetching valueIds missing)) :
    Sound verify guard.store (guard.fetch verify responses valueIds missing) := by
  rw [fetch]
  split_ifs
  · intro hok
    cases hok
  · cases hfetched : TlsBatchFetcher.fetchValues verify responses missing with
    | error e =>
      intro hok
      cases hok
    | ok values => exact ⟨h, TlsBatchFetcher.fetchFrom_ok hfetched⟩

private theorem sound_accept {valueIds missing : List V}
    (h : Sound verify guard.store (.fetched valueIds missing values)) :
    Sound verify (after (accept missing values) guard.store)
      (.returned valueIds (result (accept missing values) guard.store)) := by
  obtain ⟨⟨hrequested, hheld⟩, hvalues⟩ := h
  intro hok id hid
  by_cases hmissing : id ∈ missing
  · exact accept_ok hok hmissing
  -- What was not missing at the first look is still there: nothing is ever removed.
  · exact (accept_grows guard.store missing values).contains (hheld id hid hmissing)

def Adds (verify : BatchVerifier V) (guard : FetchingAvailability V) (action : Action V) (id : V)
    (payload : List UInt8) : Prop :=
  action = .insert id payload ∨
    ∃ i valueIds missing values, action = .accept i ∧ guard.calls[i]? = some (.fetched valueIds missing values) ∧
      id ∈ valueIds ∧ id ∈ missing ∧ verify id payload = .ok ()

def AllSound (verify : BatchVerifier V) (guard : FetchingAvailability V) : Prop := ∀ call ∈ guard.calls,
    Sound verify guard.store call

private theorem AllSound.put (h : guard.AllSound verify) (i : Nat) {call : EnsureAvailable V}
    (hcall : Sound verify guard.store call) :
    (guard.put i call).AllSound verify := by
  intro c hc
  rcases List.mem_or_eq_of_mem_set hc with hc | rfl
  · exact h c hc
  · exact hcall

private theorem AllSound.mono (h : guard.AllSound verify) {added : V → List UInt8 → Prop}
    (hgrows : guard.store.GrowsBy store added) : { guard with store := store }.AllSound verify :=
  fun call hcall => (h call hcall).mono fun _ => hgrows.contains

theorem grows_step (h : guard.AllSound verify) (action : Action V) :
    guard.store.GrowsBy (guard.step verify action).store (guard.Adds verify action) := by
  cases action with
  | insert valueId batch => exact (InMemoryValueStore.GrowsBy.refl _ _).insert (.inl rfl)
  | accept i =>
    simp only [step]
    split
    case h_2 => exact .refl _ _
    case h_1 valueIds missing values hcall =>
      split_ifs
      · exact .refl _ _
      · obtain ⟨⟨hrequested, _⟩, hvalues⟩ := h _ (List.mem_of_getElem? hcall)
        refine (accept_grows guard.store missing values).imp fun id payload hmem => ?_
        obtain ⟨hmissing, hverified⟩ := hvalues _ hmem
        exact .inr ⟨i, valueIds, missing, values, rfl, hcall, hrequested id hmissing, hmissing, hverified⟩
  | look i =>
    simp only [step]
    split <;> exact .refl _ _
  | fetch i responses =>
    simp only [step]
    split <;> exact .refl _ _
  | call valueIds => exact .refl _ _
  | poisonStore => exact .refl _ _
  | poisonFetcher => exact .refl _ _

private theorem allSound_step (h : guard.AllSound verify) (action : Action V) :
    (guard.step verify action).AllSound verify := by
  cases action with
  | call valueIds =>
    intro c hc
    rcases List.mem_append.mp hc with hc | hc
    · exact h c hc
    · rw [List.mem_singleton.mp hc]
      trivial
  | look i =>
    simp only [step]
    split
    · exact h.put i (sound_look _)
    · exact h
  | fetch i responses =>
    simp only [step]
    split
    case h_1 valueIds missing hcall => exact h.put i (sound_fetch responses (h _ (List.mem_of_getElem? hcall)))
    case h_2 => exact h
  | accept i =>
    simp only [step]
    split
    case h_1 valueIds missing values hcall =>
      split_ifs
      · refine h.put i fun hok => ?_
        cases hok
      · exact (h.mono (accept_grows guard.store missing values)).put i (sound_accept (h _ (List.mem_of_getElem? hcall)))
    case h_2 => exact h
  | insert valueId batch => exact h.mono (grows_step h (.insert valueId batch))
  | poisonStore => exact h
  | poisonFetcher => exact h

def new (store : InMemoryValueStore V) : FetchingAvailability V := ⟨store, false, false, []⟩

private theorem allSound_run (store : InMemoryValueStore V) (actions : List (Action V)) :
    (run (step verify) (new store) actions).AllSound verify := by
  refine run_invariant_all (I := AllSound verify) (fun guard action h => allSound_step h action) ?_ actions
  intro call hcall
  cases hcall

/-- Availability is granted only for verified, stored payloads, however the sections of concurrent
calls and other users of the store are interleaved and whatever the nodes answer. -/
theorem available_only_when_stored (verify : BatchVerifier V) (store : InMemoryValueStore V)
    (actions : List (Action V)) :
    let guard := run (step verify) (new store) actions
    (∀ (i : Nat) valueIds, guard.calls[i]? = some (.returned valueIds (.ok ())) →
      ∀ id ∈ valueIds, guard.store.contains id = true) ∧
      ∀ action,
        (∀ id payload, guard.store.get id = some payload → (guard.step verify action).store.get id = some payload) ∧
        ∀ id payload, guard.store.get id = none → (guard.step verify action).store.get id = some payload →
          guard.Adds verify action id payload := by
  intro guard
  have hsound : guard.AllSound verify := allSound_run store actions
  refine ⟨fun i valueIds hcall => ?_, fun action => ⟨fun id payload hget => ?_, fun id payload hnone hget => ?_⟩⟩
  · exact hsound _ (List.mem_of_getElem? hcall) rfl
  · exact (grows_step hsound action).get hget
  · exact (grows_step hsound action).new hnone hget

-- The second node sends a payload that is not the value's; the third is asked, and its payload is stored.
example :
    let verify : BatchVerifier Nat := fun id payload => if payload.length = id then .ok () else .error .missingValue
    let guard := run (step verify) (new ⟨∅⟩) [.call [1, 1], .look 0,
      .fetch 0 [.error .missingValue, .ok [⟨1, [7, 7]⟩], .ok [⟨1, [7]⟩]], .accept 0]
    guard.store.get 1 = some [7] := by decide +kernel

end FetchingAvailability
end QuePaxa
