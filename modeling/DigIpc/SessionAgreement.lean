/-
The other half of a session's life: `detach`, and the app's map of its sessions.

A `detach` that returns has been processed, and the session it names is gone for
good (`detach_settles`): ids are not drawn twice, so no later `attach` opens it
again. The app keeps its sessions in a `SessionRegistry`, one for each profile.
`App` is a system of clients, engine and that map in which the app does with it
what its documentation says, records a session when a handshake returns it and
drops it when it likes; what is in the map is then what the engine holds.
-/
import DigIpc.HandshakeAgreement

set_option autoImplicit false

open Interaction Serde
open Std

namespace DigIpc

section Detach

variable {X : Crates} {resolver : DidSigningKeyResolver} {ι : Type} [DecidableEq ι]
  {keys : ι → SigningPublicKey} {stream : ℕ → Nonce} {ls : List (NetLabel ι)} {s : Net ι}

omit [DecidableEq ι] in
/-- A session that has been detached stays so: its id is not drawn again. -/
theorem detached_for_good (hhex : Function.Injective X.hex_encode)
    (hdistinct : (registry_after X stream NetLabel.engine_op ls).entropy.Distinct) {a d : ℕ}
    {params : AttachParams} {result : AttachResult}
    (hattached : Attached X stream NetLabel.engine_op ls a resolver params result) (had : a < d)
    {l : NetLabel ι} (hl : ls[d]? = some l)
    (hdetach : NetLabel.engine_op l = some (.detach result.session_id)) {n : ℕ} (hdn : d < n) :
    (registry_after X stream NetLabel.engine_op (ls.take n)).session result.session_id = none := by
  cases hsession : (registry_after X stream NetLabel.engine_op (ls.take n)).session
      result.session_id with
  | none => rfl
  | some profile =>
    obtain ⟨a', resolver', params', result', hattached', hid, -, hundetached⟩ :=
      (session_open_iff hhex (distinct_take hdistinct n)).mp hsession
    obtain rfl : a' = a := attached_injective hhex hdistinct hattached'.take hattached hid
    rw [← List.getElem?_take_of_lt hdn] at hl
    exact absurd hdetach (hundetached d l had hl)

end Detach

/-- **A `detach` settles it.** Under any interleaving, a `detach` that returns
returns `Ok`. The engine has processed it during the call, and from then on it
holds no session under this id again, if a handshake of any client had returned
the session before. -/
theorem detach_settles {X : Crates} (hX : X.Faithful) {resolver : DidSigningKeyResolver}
    {ι : Type} [DecidableEq ι] {keys : ι → SigningPublicKey} {stream : ℕ → Nonce}
    {ls : List (NetLabel ι)} {s : Net ι}
    (hrun : Machine.Run (NetStep X resolver keys) (.start ι stream) ls s)
    (hfew : FewCallbacks X ls) (hdistinct : s.registry.entropy.Distinct)
    {k : ℕ} {i : ι} {session : Session} {h : ClientHistory} {out : Except SessionError ClientOut}
    (hl : ls[k]? = some (.client i (.ret out)))
    (hcall : in_progress (NetLabel.client_label i) (ls.take k) = some (.detach session, h)) :
    out = .ok .detached ∧ ∃ d, d < k ∧
      (∃ request response,
        ls[d]? = some (.dispatch i request (.detach session.session_id) response)) ∧
      (∀ j l, d < j → j < k → ls[j]? = some l → Aside i l) ∧
      ∀ (k₀ : ℕ) (i₀ : ι) (opened : Session), k₀ < d →
        ls[k₀]? = some (.client i₀ (.ret (.ok (.session opened)))) →
        opened.session_id = session.session_id →
        ∀ n, d < n →
          (registry_after X stream NetLabel.engine_op (ls.take n)).session session.session_id = none := by
  rw [net_registry hrun] at hdistinct
  obtain ⟨client, hends, -, hsmooth, hanswers⟩ := net_returned hX.json hrun hfew hl hcall
  obtain ⟨raw, hsettled, hout⟩ := hends.detach hX.json rfl hsmooth (hfew k i _ _ hcall)
  rw [hsettled] at hanswers
  -- the response it took is the last that the host gave this client
  obtain ⟨d, op, hdk, hld, -, haside⟩ := @answers_last _ _ _ i k [] _ _ hanswers
  obtain ⟨id', hasks, hresponse⟩ := dispatched hrun hld
  rw [requested_detach hX.json] at hasks
  obtain ⟨rfl, rfl⟩ := Prod.mk.inj (Option.some.inj hasks)
  refine ⟨?_, d, hdk, ⟨_, _, hld⟩, haside, ?_⟩
  · have houtcome : outcome_of X DetachResult.decode client.next_id raw = .ok {} := by
      rw [hresponse]
      exact outcome_of_result hX.json _ .DetachResult nofun {}
    rw [hout, houtcome]
    rfl
  · intro k₀ i₀ opened hkd hl₀ heq n hdn
    obtain ⟨a, b, profile, params, result, hreturned, hattached, hid, -⟩ :=
      session_attached hX hrun hfew hl₀
    have hak := hreturned.earlier
    rw [← heq, ← hid]
    refine detached_for_good hX.hex_injective hdistinct hattached (by omega) hld ?_ hdn
    rw [hid, heq]
    rfl

/-- The session of a handshake is detached. -/
theorem detach_settles_after_handshake : ∃ (ls : List (NetLabel Unit)) (session : Session) (d : ℕ),
    ls[9]? = some (.client () (.ret (.ok (.session session)))) ∧ 9 < d ∧
    ∀ n, d < n → (registry_after Reference.crates Reference.stream NetLabel.engine_op
      (ls.take n)).session session.session_id = none := by
  let profile : ProfileAttachment := ⟨"did", [], ""⟩
  let session := session_drawn Reference.crates Reference.stream 2 profile
  obtain ⟨s₁, hrun₁, hidle, hempty⟩ := @handshake_run Reference.crates
    (fun _ => some Reference.key) Unit _ (fun _ => Reference.key) Reference.stream () Reference.faithful
    profile _ rfl (Reference.verify_signature_iff.mpr ⟨by decide, rfl⟩)
  have hrun := net_detaches Reference.faithful hrun₁ hidle hempty session
  generalize hlog : handshake_log _ _ _ _ _ _ _ ++ _ = log at hrun
  have hlength : log.length = 15 := by rw [← hlog]; rfl
  have hfew : FewCallbacks Reference.crates log := few_callbacks_of_short (by rw [hlength]; decide)
  have hdistinct := Reference.distinct_of_short hrun (by rw [hlength]; decide)
  have hopened : log[9]? = some (.client () (.ret (.ok (.session session)))) := by rw [← hlog]; rfl
  have hcalled : log[10]? = some (.client () (.call (.detach session))) := by rw [← hlog]; rfl
  have hret : log[14]? = some (.client () (.ret (.ok .detached))) := by rw [← hlog]; rfl
  obtain ⟨h, hcall⟩ : ∃ h, in_progress (NetLabel.client_label ()) (log.take 14)
      = some (.detach session, h) := by
    rw [← hlog]
    exact ⟨_, rfl⟩
  obtain ⟨-, d, hd, -, haside, hgone⟩ :=
    detach_settles Reference.faithful hrun hfew hdistinct hret hcall
  -- the call is at 10, so the engine has processed it later
  have hlate : 9 < d := by
    by_contra hle
    exact (haside 10 _ (by omega) (by omega) hcalled).1 _ rfl
  exact ⟨log, session, d, hopened, hlate, hgone 9 () session hlate hopened rfl⟩

/-! ## The app's map -/

-- what the lookup in a map with these keys asks for, found once
instance string_equiv : EquivBEq String := inferInstance
instance string_hash : LawfulHashable String := inferInstance

/-- The app's map of live sessions, each under the DID of its profile. -/
structure SessionRegistry where
  by_did : ExtHashMap String Session
  keyed : ∀ (profile_did : String) (session : Session),
    by_did[profile_did]? = some session → session.profile_did = profile_did

namespace SessionRegistry

/-- A registry with no sessions. -/
def new : SessionRegistry := ⟨∅, by simp⟩

/-- Record or replace the live session for its profile DID. -/
def insert (self : SessionRegistry) (session : Session) : SessionRegistry where
  by_did := self.by_did.insert session.profile_did session
  keyed := by
    intro profile_did session' h
    rw [ExtHashMap.getElem?_insert] at h
    by_cases heq : session.profile_did = profile_did
    · rw [if_pos (by simpa using heq)] at h
      rw [← Option.some.inj h, heq]
    · rw [if_neg (by simpa using heq)] at h
      exact self.keyed profile_did session' h

/-- The live session for `profile_did`, if one is attached. -/
def get (self : SessionRegistry) (profile_did : String) : Option Session := self.by_did[profile_did]?

/-- Drop and return the session for `profile_did`. -/
def remove (self : SessionRegistry) (profile_did : String) : Option Session × SessionRegistry :=
  (self.by_did[profile_did]?,
    { by_did := self.by_did.erase profile_did
      keyed := by
        intro profile_did' session h
        rw [ExtHashMap.getElem?_erase] at h
        by_cases heq : profile_did = profile_did'
        · rw [if_pos (by simpa using heq)] at h
          cases h
        · rw [if_neg (by simpa using heq)] at h
          exact self.keyed profile_did' session h })

/-- How many sessions are currently attached. -/
def len (self : SessionRegistry) : ℕ := self.by_did.size

/-- Whether no session is attached. -/
def is_empty (self : SessionRegistry) : Bool := self.by_did.isEmpty

@[simp] theorem get_new (profile_did : String) : new.get profile_did = none := by simp [new, get]

theorem get_insert (self : SessionRegistry) (session : Session) (profile_did : String) :
    (self.insert session).get profile_did
      = if session.profile_did = profile_did then some session else self.get profile_did := by
  simp [insert, get, ExtHashMap.getElem?_insert]

theorem get_remove (self : SessionRegistry) (profile_did profile_did' : String) :
    (self.remove profile_did).2.get profile_did'
      = if profile_did = profile_did' then none else self.get profile_did' := by
  simp [remove, get, ExtHashMap.getElem?_erase]

end SessionRegistry

/-- Clients, engine, and the app's map. -/
structure App (ι : Type) where
  net : Net ι
  sessions : SessionRegistry

/-- What is seen: a step of clients and engine, or the app drops a session. -/
inductive AppLabel (ι : Type)
  | net (l : NetLabel ι)
  | remove (profile_did : String)

section Steps

variable {ι : Type}

/-- A session that a handshake returns is recorded. -/
def SessionRegistry.record (self : SessionRegistry) : NetLabel ι → SessionRegistry
  | .client _ (.ret (.ok (.session session))) => self.insert session
  | _ => self

def App.start (ι : Type) (stream : ℕ → Nonce) : App ι := ⟨.start ι stream, .new⟩

/-- One step of the app. -/
inductive AppStep [DecidableEq ι] (X : Crates) (resolver : DidSigningKeyResolver)
    (keys : ι → SigningPublicKey) : App ι → AppLabel ι → App ι → Prop
  | net {s : App ι} {l : NetLabel ι} {net : Net ι} (step : NetStep X resolver keys s.net l net) :
      AppStep X resolver keys s (.net l) ⟨net, s.sessions.record l⟩
  | remove {s : App ι} (profile_did : String) :
      AppStep X resolver keys s (.remove profile_did) ⟨s.net, (s.sessions.remove profile_did).2⟩

/-- The part of clients and engine. -/
def AppLabel.net_label : AppLabel ι → Option (NetLabel ι)
  | .net l => some l
  | .remove _ => none

/-- The log of clients and engine. -/
def net_log (ls : List (AppLabel ι)) : List (NetLabel ι) := ls.filterMap AppLabel.net_label

/-- A label that records a session. -/
def Records (session : Session) (l : AppLabel ι) : Prop :=
  ∃ i, l = .net (.client i (.ret (.ok (.session session))))

/-- A label that changes what is under `profile_did`. -/
def Touches (profile_did : String) (l : AppLabel ι) : Prop :=
  l = .remove profile_did ∨ ∃ session, Records session l ∧ session.profile_did = profile_did

/-- `session` was recorded for its DID, and what is under the DID has not changed since. -/
def RecordedLast (profile_did : String) (session : Session) (ls : List (AppLabel ι)) : Prop :=
  ∃ (k : ℕ) (l : AppLabel ι), ls[k]? = some l ∧ Records session l ∧
    session.profile_did = profile_did ∧
    ∀ j l', k < j → ls[j]? = some l' → ¬ Touches profile_did l'

/-- A label that leaves the DID alone keeps the place. -/
theorem recorded_last_kept {profile_did : String} {session : Session} {ls : List (AppLabel ι)}
    {l : AppLabel ι} (htouches : ¬ Touches profile_did l) :
    RecordedLast profile_did session (ls ++ [l]) ↔ RecordedLast profile_did session ls := by
  constructor
  · rintro ⟨k, l', hl', hrecords, hdid, hafter⟩
    rcases Machine.getElem?_snoc hl' with ⟨-, hold⟩ | ⟨-, rfl⟩
    · exact ⟨k, l', hold, hrecords, hdid, fun j l'' hkj hl'' =>
        hafter j l'' hkj (Machine.getElem?_snoc_of_some hl'' l).1⟩
    · exact absurd (Or.inr ⟨session, hrecords, hdid⟩) htouches
  · rintro ⟨k, l', hl', hrecords, hdid, hafter⟩
    refine ⟨k, l', (Machine.getElem?_snoc_of_some hl' l).1, hrecords, hdid, fun j l'' hkj hl'' => ?_⟩
    rcases Machine.getElem?_snoc hl'' with ⟨-, hold⟩ | ⟨-, rfl⟩
    · exact hafter j l'' hkj hold
    · exact htouches

/-- A label that touches it is the last one that does. -/
theorem recorded_last_touched {profile_did : String} {session : Session} {ls : List (AppLabel ι)}
    {l : AppLabel ι} (htouches : Touches profile_did l) :
    RecordedLast profile_did session (ls ++ [l]) ↔
      Records session l ∧ session.profile_did = profile_did := by
  constructor
  · rintro ⟨k, l', hl', hrecords, hdid, hafter⟩
    rcases Machine.getElem?_snoc hl' with ⟨hlt, -⟩ | ⟨-, rfl⟩
    · exact absurd htouches (hafter ls.length l hlt (by simp))
    · exact ⟨hrecords, hdid⟩
  · rintro ⟨hrecords, hdid⟩
    refine ⟨ls.length, l, by simp, hrecords, hdid, fun j l'' hj hl'' => ?_⟩
    rcases Machine.getElem?_snoc hl'' with ⟨hlt, -⟩ | ⟨rfl, -⟩ <;> omega

theorem SessionRegistry.record_cases (self : SessionRegistry) (l : NetLabel ι) :
    (∃ session, Records session (.net l) ∧ self.record l = self.insert session) ∨
      (self.record l = self ∧ ∀ session, ¬ Records session (.net l)) := by
  by_cases hrecords : ∃ i session, l = .client i (.ret (.ok (.session session)))
  · obtain ⟨i, session, rfl⟩ := hrecords
    exact Or.inl ⟨session, ⟨i, rfl⟩, rfl⟩
  · refine Or.inr ⟨?_, ?_⟩
    · unfold SessionRegistry.record
      split
      · exact absurd ⟨_, _, rfl⟩ hrecords
      · rfl
    · rintro session ⟨i, hl⟩
      exact hrecords ⟨i, session, AppLabel.net.inj hl⟩

theorem Records.unique {session session' : Session} {l : AppLabel ι} (h : Records session l)
    (h' : Records session' l) : session = session' := by
  obtain ⟨i, rfl⟩ := h
  obtain ⟨i', hl⟩ := h'
  cases hl
  rfl

end Steps

section Runs

variable {ι : Type} [DecidableEq ι] {X : Crates} {resolver : DidSigningKeyResolver}
  {keys : ι → SigningPublicKey} {stream : ℕ → Nonce} {ls : List (AppLabel ι)} {s : App ι}

/-- Without the map, a run of the app is a run of clients and engine. -/
theorem app_net (hrun : Machine.Run (AppStep X resolver keys) (.start ι stream) ls s) :
    Machine.Run (NetStep X resolver keys) (.start ι stream) (net_log ls) s.net := by
  refine hrun.invariant (I := fun ls s => Machine.Run (NetStep X resolver keys) (.start ι stream)
    (net_log ls) s.net) .start ?_
  intro ls s l s' _ ih hstep
  unfold net_log at ih ⊢
  rw [List.filterMap_append]
  cases hstep with
  | net step => exact ih.step step
  | remove profile_did =>
    rw [List.filterMap_cons_none rfl, List.filterMap_nil, List.append_nil]
    exact ih

/-- **What is in the map** is what was recorded last for the DID, unless it was
removed. -/
theorem app_sessions (hrun : Machine.Run (AppStep X resolver keys) (.start ι stream) ls s)
    (profile_did : String) (session : Session) :
    s.sessions.get profile_did = some session ↔ RecordedLast profile_did session ls := by
  refine hrun.invariant (I := fun ls s =>
    s.sessions.get profile_did = some session ↔ RecordedLast profile_did session ls) ?_ ?_
  · constructor
    · intro h
      rw [App.start, SessionRegistry.get_new] at h
      cases h
    · rintro ⟨k, l, hl, -⟩
      cases hl
  intro ls s l s' _ ih hstep
  cases hstep with
  | @net l net step =>
    show (s.sessions.record l).get profile_did = some session ↔ _
    rcases s.sessions.record_cases l with ⟨session', hrecords, hrecord⟩ | ⟨hrecord, hnone⟩
    · rw [hrecord, SessionRegistry.get_insert]
      by_cases hdid : session'.profile_did = profile_did
      · rw [recorded_last_touched (Or.inr ⟨session', hrecords, hdid⟩), if_pos hdid]
        constructor
        · intro heq
          obtain rfl := Option.some.inj heq
          exact ⟨hrecords, hdid⟩
        · rintro ⟨hrecords', -⟩
          rw [hrecords.unique hrecords']
      · -- another DID's session
        rw [recorded_last_kept, if_neg hdid, ih]
        rintro (hremove | ⟨session'', hrecords', hdid'⟩)
        · cases hremove
        · rw [← hrecords.unique hrecords'] at hdid'
          exact hdid hdid'
    · rw [recorded_last_kept, hrecord, ih]
      rintro (hremove | ⟨session', hrecords, -⟩)
      · cases hremove
      · exact hnone session' hrecords
  | remove profile_did' =>
    show (s.sessions.remove profile_did').2.get profile_did = some session ↔ _
    rw [SessionRegistry.get_remove]
    by_cases heq : profile_did' = profile_did
    · subst heq
      rw [recorded_last_touched (Or.inl rfl), if_pos rfl]
      constructor
      · exact nofun
      · rintro ⟨⟨i, hl⟩, -⟩
        cases hl
    · rw [recorded_last_kept, if_neg heq, ih]
      rintro (hremove | ⟨session', ⟨i, hl⟩, -⟩)
      · exact heq (AppLabel.remove.inj hremove)
      · cases hl

/-- The DIDs in the map, counted. -/
theorem app_dids (hrun : Machine.Run (AppStep X resolver keys) (.start ι stream) ls s) :
    ∃ dids : Finset String,
      (∀ profile_did, (s.sessions.get profile_did).isSome ↔ profile_did ∈ dids) ∧
      s.sessions.len = dids.card := by
  have hfinite : ∃ dids : Finset String,
      ∀ profile_did, (s.sessions.get profile_did).isSome ↔ profile_did ∈ dids := by
    refine hrun.invariant (I := fun _ s => ∃ dids : Finset String,
      ∀ profile_did, (s.sessions.get profile_did).isSome ↔ profile_did ∈ dids) ?_ ?_
    · exact ⟨∅, fun profile_did => by simp [App.start]⟩
    rintro ls s l s' - ⟨dids, hdids⟩ hstep
    cases hstep with
    | @net l net step =>
      rcases s.sessions.record_cases l with ⟨session, -, hrecord⟩ | ⟨hrecord, -⟩
      · refine ⟨insert session.profile_did dids, fun profile_did => ?_⟩
        rw [hrecord, SessionRegistry.get_insert, Finset.mem_insert, ← hdids]
        by_cases heq : session.profile_did = profile_did
        · simp [heq]
        · simp [heq, Ne.symm heq]
      · rw [hrecord]
        exact ⟨dids, hdids⟩
    | remove profile_did =>
      refine ⟨dids.erase profile_did, fun profile_did' => ?_⟩
      rw [SessionRegistry.get_remove, Finset.mem_erase, ← hdids]
      by_cases heq : profile_did = profile_did'
      · simp [heq]
      · simp [heq, Ne.symm heq]
  obtain ⟨dids, hdids⟩ := hfinite
  exact ⟨dids, hdids, KeyedFifo.size_eq_card hdids⟩

/-- A session in the map was opened by an `attach` for its DID. -/
theorem app_attached (hX : X.Faithful)
    (hrun : Machine.Run (AppStep X resolver keys) (.start ι stream) ls s)
    (hfew : FewCallbacks X (net_log ls)) {profile_did : String} {session : Session}
    (hget : s.sessions.get profile_did = some session) :
    ∃ a params result, Attached X stream NetLabel.engine_op (net_log ls) a resolver params result ∧
      result.session_id = session.session_id ∧ params.profile.did = profile_did := by
  obtain ⟨k, l, hl, ⟨i, rfl⟩, hdid, -⟩ := (app_sessions hrun profile_did session).mp hget
  have hmem : NetLabel.client i (.ret (.ok (.session session))) ∈ net_log ls :=
    List.mem_filterMap.mpr ⟨_, List.mem_of_getElem? hl, rfl⟩
  obtain ⟨k', hk'⟩ := List.mem_iff_getElem?.mp hmem
  obtain ⟨a, b, profile, params, result, -, hattached, hid, hprofile⟩ :=
    session_attached hX (app_net hrun) hfew hk'
  exact ⟨a, params, result, hattached, hid, hprofile.trans hdid⟩

/-- Unless it has been detached since, the engine holds it for the profile of the `attach`. -/
theorem app_held (hX : X.Faithful)
    (hrun : Machine.Run (AppStep X resolver keys) (.start ι stream) ls s)
    (hfew : FewCallbacks X (net_log ls)) (hdistinct : s.net.registry.entropy.Distinct)
    {profile_did : String} {session : Session}
    (hget : s.sessions.get profile_did = some session) :
    ∃ a params result, Attached X stream NetLabel.engine_op (net_log ls) a resolver params result ∧
      result.session_id = session.session_id ∧ params.profile.did = profile_did ∧
      (Undetached NetLabel.engine_op (net_log ls) a session.session_id →
        s.net.registry.session session.session_id = some params.profile) := by
  rw [net_registry (app_net hrun)] at hdistinct ⊢
  obtain ⟨a, params, result, hattached, hid, hdid⟩ := app_attached hX hrun hfew hget
  refine ⟨a, params, result, hattached, hid, hdid, fun hundetached => ?_⟩
  exact (session_open_iff hX.hex_injective hdistinct).mpr
    ⟨a, resolver, params, result, hattached, hid, rfl, hundetached⟩

/-- Sessions of different DIDs have different ids. -/
theorem app_did_of_id (hX : X.Faithful)
    (hrun : Machine.Run (AppStep X resolver keys) (.start ι stream) ls s)
    (hfew : FewCallbacks X (net_log ls)) (hdistinct : s.net.registry.entropy.Distinct)
    {profile_did profile_did' : String} {session session' : Session}
    (hget : s.sessions.get profile_did = some session)
    (hget' : s.sessions.get profile_did' = some session')
    (hids : session.session_id = session'.session_id) : profile_did = profile_did' := by
  rw [net_registry (app_net hrun)] at hdistinct
  obtain ⟨a, params, result, hattached, hid, hdid⟩ := app_attached hX hrun hfew hget
  obtain ⟨a', params', result', hattached', hid', hdid'⟩ := app_attached hX hrun hfew hget'
  -- one id, one `attach`
  obtain rfl : a = a' := attached_injective hX.hex_injective hdistinct hattached hattached'
    (by rw [hid, hid', hids])
  obtain ⟨l, hl, hview, -⟩ := hattached
  obtain ⟨l', hl', hview', -⟩ := hattached'
  rw [hl] at hl'
  obtain rfl := Option.some.inj hl'
  rw [hview] at hview'
  obtain rfl := (EngineOp.attach.inj (Option.some.inj hview')).2
  rw [← hdid, hdid']

/-- The sessions in the map are as many as their ids, and these are keys of the engine's map. -/
theorem app_len_le (hX : X.Faithful)
    (hrun : Machine.Run (AppStep X resolver keys) (.start ι stream) ls s)
    (hdistinct : s.net.registry.entropy.Distinct)
    (hids : ∀ profile_did profile_did' session session',
      s.sessions.get profile_did = some session → s.sessions.get profile_did' = some session' →
      session.session_id = session'.session_id → profile_did = profile_did')
    (hheld : ∀ profile_did session, s.sessions.get profile_did = some session →
      ∃ profile, s.net.registry.session session.session_id = some profile) :
    s.sessions.len ≤ s.net.registry.open_sessions := by
  rw [net_registry (app_net hrun)] at hdistinct hheld ⊢
  obtain ⟨dids, hdids, hlen⟩ := app_dids hrun
  obtain ⟨-, held, hsim⟩ := simulates_after hX.hex_injective (net_log ls) hdistinct
  rw [hlen, hsim.open_sessions]
  let id_of : String → String := fun profile_did =>
    ((s.sessions.get profile_did).map Session.session_id).getD ""
  have hsession : ∀ profile_did ∈ dids, ∃ session, s.sessions.get profile_did = some session ∧
      id_of profile_did = session.session_id := by
    intro profile_did hdid
    obtain ⟨session, hget⟩ := Option.isSome_iff_exists.mp ((hdids profile_did).mpr hdid)
    exact ⟨session, hget, by simp only [id_of, hget]; rfl⟩
  -- each DID in the map is sent to the id of its session
  refine Finset.card_le_card_of_injOn id_of ?_ ?_
  · intro profile_did hdid
    obtain ⟨session, hget, hid⟩ := hsession profile_did hdid
    obtain ⟨profile, hlookup⟩ := hheld profile_did session hget
    unfold EngineSessionRegistry.session at hlookup
    rw [hsim.sessions] at hlookup
    rw [hid]
    exact Finmap.mem_keys.mpr (Finmap.mem_of_lookup_eq_some hlookup)
  · intro profile_did hdid profile_did' hdid' heq
    obtain ⟨session, hget, hid⟩ := hsession profile_did hdid
    obtain ⟨session', hget', hid'⟩ := hsession profile_did' hdid'
    exact hids _ _ session session' hget hget' (by rw [← hid, ← hid', heq])

end Runs

/-- **The app's map agrees with the engine.** In every run of any number of clients
against one engine, with the app recording every session that a handshake returns
and removing what it likes: what the map has for a DID is the session recorded
last, unless removed since; it was opened by an `attach` for this DID, and unless
it has been detached since, the engine holds it for exactly the profile of that
`attach`; sessions of different DIDs have different ids; and as long as nothing in
the map has been detached, the engine has at least as many open sessions. -/
theorem registry_agrees {X : Crates} (hX : X.Faithful) {resolver : DidSigningKeyResolver}
    {ι : Type} [DecidableEq ι] {keys : ι → SigningPublicKey} {stream : ℕ → Nonce}
    {ls : List (AppLabel ι)} {s : App ι}
    (hrun : Machine.Run (AppStep X resolver keys) (.start ι stream) ls s)
    (hfew : FewCallbacks X (net_log ls)) (hdistinct : s.net.registry.entropy.Distinct) :
    (∀ profile_did session, s.sessions.get profile_did = some session ↔
      ∃ (k : ℕ) (l : AppLabel ι), ls[k]? = some l ∧ Records session l ∧
        session.profile_did = profile_did ∧
        ∀ j l', k < j → ls[j]? = some l' → ¬ Touches profile_did l') ∧
    (∀ profile_did session, s.sessions.get profile_did = some session →
      ∃ a params result,
        Attached X stream NetLabel.engine_op (net_log ls) a resolver params result ∧
        result.session_id = session.session_id ∧ params.profile.did = profile_did ∧
        (Undetached NetLabel.engine_op (net_log ls) a session.session_id →
          s.net.registry.session session.session_id = some params.profile)) ∧
    (∀ profile_did profile_did' session session',
      s.sessions.get profile_did = some session → s.sessions.get profile_did' = some session' →
      session.session_id = session'.session_id → profile_did = profile_did') ∧
    ((∀ profile_did session, s.sessions.get profile_did = some session →
        ∀ l ∈ net_log ls, NetLabel.engine_op l ≠ some (.detach session.session_id)) →
      s.sessions.len ≤ s.net.registry.open_sessions) := by
  have hids : ∀ profile_did profile_did' session session',
      s.sessions.get profile_did = some session → s.sessions.get profile_did' = some session' →
      session.session_id = session'.session_id → profile_did = profile_did' :=
    fun _ _ _ _ hget hget' hids => app_did_of_id hX hrun hfew hdistinct hget hget' hids
  refine ⟨app_sessions hrun, fun _ _ hget => app_held hX hrun hfew hdistinct hget, hids, ?_⟩
  intro hundetached
  refine app_len_le hX hrun hdistinct hids fun profile_did session hget => ?_
  obtain ⟨a, params, result, -, -, -, hopen⟩ := app_held hX hrun hfew hdistinct hget
  exact ⟨params.profile, hopen fun j l _ hl =>
    hundetached profile_did session hget l (List.mem_of_getElem? hl)⟩

/-- Every run of clients and engine is a run of the app. -/
theorem app_of_net {ι : Type} [DecidableEq ι] {X : Crates} {resolver : DidSigningKeyResolver}
    {keys : ι → SigningPublicKey} {stream : ℕ → Nonce} {ls : List (NetLabel ι)} {s : Net ι}
    (hrun : Machine.Run (NetStep X resolver keys) (.start ι stream) ls s) :
    ∃ sessions,
      Machine.Run (AppStep X resolver keys) (.start ι stream) (ls.map .net) ⟨s, sessions⟩ := by
  induction hrun with
  | start => exact ⟨.new, .start⟩
  | @step ls s t l hrun hstep ih =>
    obtain ⟨sessions, hrun'⟩ := ih
    rw [List.map_append]
    exact ⟨sessions.record l, hrun'.step (.net hstep)⟩

/-- After a handshake the map and the engine have its session. -/
theorem registry_agrees_after_handshake : ∃ (ls : List (AppLabel Unit)) (s : App Unit)
    (session : Session),
    Machine.Run (AppStep Reference.crates (fun _ => some Reference.key) fun _ => Reference.key)
      (.start Unit Reference.stream) ls s ∧
    s.sessions.get "did" = some session ∧ s.sessions.len ≤ s.net.registry.open_sessions := by
  let profile : ProfileAttachment := ⟨"did", [], ""⟩
  let session := session_drawn Reference.crates Reference.stream 2 profile
  obtain ⟨s, hrun, -, -⟩ := @handshake_run Reference.crates (fun _ => some Reference.key) Unit _
    (fun _ => Reference.key) Reference.stream () Reference.faithful profile _ rfl
    (Reference.verify_signature_iff.mpr ⟨by decide, rfl⟩)
  generalize hlog : handshake_log _ _ _ _ _ _ _ = log at hrun
  have hlength : log.length = 10 := by rw [← hlog]; rfl
  obtain ⟨sessions, happ⟩ := app_of_net hrun
  have hnet : net_log (log.map .net) = log := by
    unfold net_log
    rw [List.filterMap_map]
    exact List.filterMap_some
  have hfew : FewCallbacks Reference.crates (net_log (log.map .net)) := by
    rw [hnet]
    exact few_callbacks_of_short (by rw [hlength]; decide)
  have hdistinct := Reference.distinct_of_short hrun (by rw [hlength]; decide)
  obtain ⟨hlast, -, -, hopen⟩ := registry_agrees Reference.faithful happ hfew hdistinct
  have hdetach : ∀ l ∈ log, ∀ session_id, NetLabel.engine_op l ≠ some (.detach session_id) := by
    rw [← hlog]
    simp [handshake_log, begin_log, session_log, attach_log, NetLabel.engine_op]
  have hrecorded : (log.map AppLabel.net)[9]?
      = some (.net (.client () (.ret (.ok (.session session))))) := by
    rw [← hlog]
    rfl
  refine ⟨_, _, session, happ,
    (hlast "did" session).mpr ⟨9, _, hrecorded, ⟨(), rfl⟩, rfl, ?_⟩, hopen ?_⟩
  · intro j l hj hl
    have hlt := (List.getElem?_eq_some_iff.mp hl).1
    rw [List.length_map] at hlt
    omega
  · rintro - session' - l hl
    rw [hnet] at hl
    exact hdetach l hl session'.session_id

end DigIpc
