import WorkflowEngine.Runtime.AuthServer

/-!
# What letting somebody in rests on

An invariant of every run of the server, across restarts and whatever cookies
browsers send: a session cookie of the process was sealed for a user whom the
provider had named and the allowlist admits, and a GitHub sign-in went through
the state that the server had drawn. The three kinds of cookies are sealed with
one password, so the invariant also says why none passes for another.
-/

namespace WorkflowEngine.Runtime.Auth

open Lib
set_option autoImplicit false

/-! ## What must have happened before -/

/-- The allowlist names the user. -/
def AuthConfig.Admits (c : AuthConfig) (provider : String) (user : UserContext) : Prop :=
  (provider = "github" ∧ ("github:user:" ++ user.login ∈ splitTopLevel (c.authAllow.getD "") ∨
    ∃ org ∈ user.orgs, "github:org:" ++ org ∈ splitTopLevel (c.authAllow.getD ""))) ∨
  (provider = "local" ∧ ∃ e : LocalEntry, e.WellFormed ∧ user = userFromEntry e ∧
    (Entry.local e).text ∈ splitTopLevel (c.authAllow.getD ""))

section Registries
variable {c : AuthConfig} {r : ProviderRegistry AuthProvider}

theorem eq_github_of_byId (h : c.registry = .ok r) {id : String} {users orgs : List String}
    (hp : r.byId id = some (.github users orgs)) : id = "github" := by
  rcases created_iff.mp ((byId_of_buildRegistry h _ _).mp hp).2 with ⟨hid, -⟩ | ⟨-, -, hcreate⟩
  · exact hid
  · obtain ⟨es, -, habsurd⟩ := createLocalProvider_eq_ok.mp hcreate
    cases habsurd

theorem eq_local_of_byId (h : c.registry = .ok r) {id : String} {entries : List LocalEntry}
    (hp : r.byId id = some (.local entries)) : id = "local" := by
  rcases created_iff.mp ((byId_of_buildRegistry h _ _).mp hp).2 with ⟨-, hcreate⟩ | ⟨hid, -⟩
  · obtain ⟨es, -, -, habsurd⟩ := createGithubProvider_eq_ok.mp hcreate
    cases habsurd
  · exact hid

theorem admits_of_isAllowed (h : c.registry = .ok r) {users orgs : List String} {user : UserContext}
    (hp : r.byId "github" = some (.github users orgs)) (hallowed : isAllowed user users orgs = true) :
    c.Admits "github" user :=
  Or.inl ⟨rfl, (isAllowed_iff_named h user).mp ⟨users, orgs, hp, hallowed⟩⟩

theorem admits_of_byName (h : c.registry = .ok r) {entries : List LocalEntry} {name : String} {e : LocalEntry}
    (hp : r.byId "local" = some (.local entries)) (he : (byName entries).get? name = some e) :
    c.Admits "local" (userFromEntry e) := by
  refine Or.inr ⟨rfl, e, ?_⟩
  cases byId_local h hp
  rcases OrderedMap.mem_of_get?_foldl_set _ _ _ he with ⟨e', he', -, rfl⟩ | hnone
  · obtain ⟨text, htext, hentry⟩ := List.mem_filterMap.mp he'
    obtain ⟨rest, rfl, hparse⟩ := (entryOf_eq_some (by decide) parseLocalRest_empty).mp hentry
    obtain ⟨rfl, hwf⟩ := parseLocalRest_eq_ok.mp hparse
    exact ⟨hwf, rfl, htext⟩
  · simp at hnone

/-- Whom the allowlist admits, his provider is there to ask. -/
theorem registered_of_admits (h : c.registry = .ok r) {provider : String} {user : UserContext}
    (hadmits : c.Admits provider user) :
    (provider = "github" ∧ ∃ users orgs, r.byId "github" = some (.github users orgs)) ∨
      (provider = "local" ∧ ∃ entries e, r.byId "local" = some (.local entries) ∧
        (byName entries).get? user.login = some e) := by
  rcases hadmits with ⟨rfl, hnamed⟩ | ⟨rfl, e, hwf, rfl, htext⟩
  · obtain ⟨users, orgs, hp, -⟩ := (isAllowed_iff_named h user).mpr hnamed
    exact Or.inl ⟨rfl, users, orgs, hp⟩
  · obtain ⟨p, hp⟩ := isSome_byId h htext
    rw [Entry.text, splitFirstColon_append (by decide)] at hp
    obtain rfl := byId_local h hp
    have hentry : entryOf "local" parseLocalRest (Entry.local e).text = some e :=
      (entryOf_eq_some (by decide) parseLocalRest_empty).mpr ⟨_, rfl, parseLocalRest_eq_ok.mpr ⟨rfl, hwf⟩⟩
    cases hget : (byName ((splitTopLevel (c.authAllow.getD "")).filterMap
        (entryOf "local" parseLocalRest))).get? e.name with
    | some e' => exact Or.inr ⟨rfl, _, e', hp, hget⟩
    | none =>
      rw [byName, OrderedMap.get?_eq_none_iff,
        OrderedMap.mem_keys_foldl_set (fun e : LocalEntry => e.name) fun e => e] at hget
      exact absurd (Or.inl (List.mem_map.mpr ⟨e, List.mem_filterMap.mpr ⟨_, htext, hentry⟩, rfl⟩)) hget

end Registries

namespace Server

/-- In the current process the fact came up at this time. -/
def Happened (s : Server) (time : Nat) (fact : Fact) : Prop := ⟨s.boot, time, fact⟩ ∈ s.history

/-- A session payload rests on a sign-in and on the provider's word for its user. -/
structure Backed (s : Server) (p : SessionPayload) : Prop where
  signedIn : ∃ t state, t ≤ p.resolvedAt ∧ s.Happened t (.signedIn p.provider p.accessToken state) ∧
    p.exp = t + sevenDaysMs
  named : ∃ t, p.resolvedAt ≤ t ∧ s.Happened t (.named p.provider p.accessToken (userFromPayload p))
  admitted : s.config.Admits p.provider (userFromPayload p)

/-- What a seal of this process rests on. -/
def SealOk (s : Server) (x : Seal) : Prop :=
  match x.payload with
  | .session p => s.Backed p ∧ p.exp ≤ x.expiration
  | .state p => ∃ t, s.Happened t (.started p.state) ∧ x.expiration = t + fiveMinutesMs
  | .flash _ => True

def TaskOk (s : Server) : Task → Prop
  | .refresh p now =>
    s.Backed p ∧ p.provider = "github" ∧ p.resolvedAt ≤ now ∧ now < p.exp ∧ now ≤ s.clock
  | .exchange code state => ∃ t, s.Happened t (.accepted code state.state)
  | .resolve code accessToken state =>
    ∃ t t', t ≤ t' ∧ s.Happened t (.accepted code state.state) ∧ s.Happened t' (.issued code accessToken)
  | .api _ => True

end Server

/-- The middleware let in a user whom the provider had named, and the allowlist of the running process admits,
for a token of a sign-in that is younger than seven days; the provider's word was younger than ten minutes, or
was asked for by the request itself. -/
structure ServedOk (history : List Event) (configs : List AuthConfig) (boot time : Nat)
    (checkedAt : Nat) (provider accessToken : String) (user : UserContext) : Prop where
  checked : checkedAt ≤ time
  named : ∃ t ≤ time, checkedAt < t + tenMinutesMs ∧ ⟨boot, t, .named provider accessToken user⟩ ∈ history
  signedIn : ∃ t state, t ≤ checkedAt ∧ checkedAt < t + sevenDaysMs ∧
    ⟨boot, t, .signedIn provider accessToken state⟩ ∈ history
  admitted : ∃ config, configs[boot]? = some config ∧ config.Admits provider user

/-- What an event of a history rests on, all of it in the same process. -/
def Justified (history : List Event) (configs : List AuthConfig) (e : Event) : Prop :=
  match e.fact with
  | .accepted _ state =>
    ∃ t ≤ e.time, e.time < t + fiveMinutesMs + sixtySecondsMs ∧ ⟨e.boot, t, .started state⟩ ∈ history
  | .signedIn provider accessToken (some state) =>
    provider = "github" ∧ ∃ code t t', t ≤ t' ∧ t' ≤ e.time ∧ ⟨e.boot, t, .accepted code state⟩ ∈ history ∧
      ⟨e.boot, t', .issued code accessToken⟩ ∈ history
  | .signedIn provider _ none => provider = "local"
  | .served checkedAt provider accessToken user =>
    ServedOk history configs e.boot e.time checkedAt provider accessToken user
  | .identified provider accessToken user =>
    ⟨e.boot, e.time, .named provider accessToken user⟩ ∈ history ∧
      ∃ config, configs[e.boot]? = some config ∧ config.Admits provider user
  | _ => True

theorem Justified.mono {history history' : List Event} {configs configs' : List AuthConfig} {e : Event}
    (h : Justified history configs e) (hhistory : history ⊆ history') (hconfigs : configs <+: configs') :
    Justified history' configs' e := by
  have hkeep : ∀ {n : Nat} {config : AuthConfig}, configs[n]? = some config → configs'[n]? = some config := by
    intro n config hn
    obtain ⟨later, rfl⟩ := hconfigs
    rw [List.getElem?_append_left (List.getElem?_eq_some_iff.mp hn).1]
    exact hn
  obtain ⟨boot, time, fact⟩ := e
  cases fact with
  | accepted code state =>
    obtain ⟨t, ht, hlt, hmem⟩ := h
    exact ⟨t, ht, hlt, hhistory hmem⟩
  | signedIn provider accessToken state =>
    cases state with
    | none => exact h
    | some state =>
      obtain ⟨hid, code, t, t', htt, ht, hmem, hmem'⟩ := h
      exact ⟨hid, code, t, t', htt, ht, hhistory hmem, hhistory hmem'⟩
  | served checkedAt provider accessToken user =>
    obtain ⟨hchecked, ⟨t, ht, hlt, hmem⟩, ⟨t', state, ht', hlt', hmem'⟩, config, hconfig, hadmits⟩ := h
    exact ⟨hchecked, ⟨t, ht, hlt, hhistory hmem⟩, ⟨t', state, ht', hlt', hhistory hmem'⟩, config, hkeep hconfig, hadmits⟩
  | identified provider accessToken user =>
    obtain ⟨hmem, config, hconfig, hadmits⟩ := h
    exact ⟨hhistory hmem, config, hkeep hconfig, hadmits⟩
  | started state => trivial
  | issued code accessToken => trivial
  | named provider accessToken user => trivial

namespace Server

/-- A state that the process reaches from another without a restart. -/
structure Later (s s' : Server) : Prop where
  boot : s'.boot = s.boot
  config : s'.config = s.config
  history : s.history ⊆ s'.history
  clock : s.clock ≤ s'.clock

section Later
variable {s s' : Server} (h : Later s s')
include h

theorem Happened.later {time : Nat} {fact : Fact} (hp : s.Happened time fact) : s'.Happened time fact := by
  unfold Happened
  rw [h.boot]
  exact h.history hp

theorem Backed.later {p : SessionPayload} (hp : s.Backed p) : s'.Backed p := by
  obtain ⟨⟨t, state, ht, hsigned, hexp⟩, ⟨t', ht', hnamed⟩, hadmits⟩ := hp
  exact ⟨⟨t, state, ht, hsigned.later h, hexp⟩, ⟨t', ht', hnamed.later h⟩, h.config ▸ hadmits⟩

theorem SealOk.later {x : Seal} (hx : s.SealOk x) : s'.SealOk x := by
  obtain ⟨boot, payload, expiration⟩ := x
  cases payload with
  | session p => exact ⟨hx.1.later h, hx.2⟩
  | state p =>
    obtain ⟨t, ht, hexp⟩ := hx
    exact ⟨t, ht.later h, hexp⟩
  | flash p => trivial

theorem TaskOk.later {task : Task} (htask : s.TaskOk task) : s'.TaskOk task := by
  cases task with
  | refresh p now =>
    obtain ⟨hp, hid, hresolved, hexp, hnow⟩ := htask
    exact ⟨hp.later h, hid, hresolved, hexp, Nat.le_trans hnow h.clock⟩
  | exchange code state =>
    obtain ⟨t, ht⟩ := htask
    exact ⟨t, ht.later h⟩
  | resolve code accessToken state =>
    obtain ⟨t, t', htt, ht, ht'⟩ := htask
    exact ⟨t, t', htt, ht.later h, ht'.later h⟩
  | api accessToken => trivial

end Later

structure Inv (s : Server) : Prop where
  started : s.config.registry = .ok s.registry
  current : s.configs[s.boot]? = some s.config
  last : s.configs.length = s.boot + 1
  boots : ∀ x ∈ s.seals, x.boot ≤ s.boot
  times : ∀ e ∈ s.history, e.time ≤ s.clock
  seals : ∀ x ∈ s.seals, x.boot = s.boot → s.SealOk x
  tasks : ∀ task ∈ s.tasks, s.TaskOk task
  events : ∀ e ∈ s.history, Justified s.history s.configs e

theorem inv_initial : Inv initial := by
  refine ⟨?_, rfl, rfl, ?_, ?_, ?_, ?_, ?_⟩
  · rfl
  all_goals
    intro x hx
    cases hx

variable {s : Server}

theorem later_log (s : Server) (fact : Fact) : Later s (s.log fact) :=
  ⟨rfl, rfl, List.subset_append_left _ _, Nat.le_refl _⟩

theorem later_sealed (s : Server) (payload : Payload) (ttl : Nat) : Later s (s.sealed payload ttl) :=
  ⟨rfl, rfl, List.Subset.refl _, Nat.le_refl _⟩

theorem later_addTask (s : Server) (task : Task) : Later s (s.addTask task) :=
  ⟨rfl, rfl, List.Subset.refl _, Nat.le_refl _⟩

theorem later_dropTask (s : Server) (i : Nat) : Later s (s.dropTask i) :=
  ⟨rfl, rfl, List.Subset.refl _, Nat.le_refl _⟩

@[simp] theorem happened_log (s : Server) (fact : Fact) : (s.log fact).Happened s.clock fact := by
  simp [Happened, log]

theorem Inv.log (hi : Inv s) (fact : Fact)
    (hfact : Justified (s.log fact).history s.configs ⟨s.boot, s.clock, fact⟩) : Inv (s.log fact) where
  started := hi.started
  current := hi.current
  last := hi.last
  boots := hi.boots
  times := by
    intro e he
    rcases List.mem_append.mp he with he | he
    · exact hi.times e he
    · rw [List.mem_singleton] at he
      subst he
      exact Nat.le_refl _
  seals x hx hboot := (hi.seals x hx hboot).later (later_log s fact)
  tasks task htask := (hi.tasks task htask).later (later_log s fact)
  events := by
    intro e he
    rcases List.mem_append.mp he with he | he
    · exact (hi.events e he).mono (List.subset_append_left _ _) (List.prefix_refl _)
    · rw [List.mem_singleton] at he
      subst he
      exact hfact

theorem Inv.sealed (hi : Inv s) (payload : Payload) (ttl : Nat)
    (hx : s.SealOk ⟨s.boot, payload, s.clock + ttl⟩) : Inv (s.sealed payload ttl) where
  started := hi.started
  current := hi.current
  last := hi.last
  boots := by
    intro x hmem
    rcases List.mem_append.mp hmem with hmem | hmem
    · exact hi.boots x hmem
    · rw [List.mem_singleton] at hmem
      subst hmem
      exact Nat.le_refl _
  times := hi.times
  seals := by
    intro x hmem hboot
    rcases List.mem_append.mp hmem with hmem | hmem
    · exact (hi.seals x hmem hboot).later (later_sealed s payload ttl)
    · rw [List.mem_singleton] at hmem
      subst hmem
      exact SealOk.later (later_sealed s payload ttl) hx
  tasks task htask := (hi.tasks task htask).later (later_sealed s payload ttl)
  events := hi.events

theorem Inv.addTask (hi : Inv s) {task : Task} (htask : s.TaskOk task) : Inv (s.addTask task) where
  started := hi.started
  current := hi.current
  last := hi.last
  boots := hi.boots
  times := hi.times
  seals x hx hboot := (hi.seals x hx hboot).later (later_addTask s task)
  tasks := by
    intro t ht
    rcases List.mem_append.mp ht with ht | ht
    · exact (hi.tasks t ht).later (later_addTask s task)
    · rw [List.mem_singleton] at ht
      subst ht
      exact TaskOk.later (later_addTask s _) htask
  events := hi.events

theorem Inv.dropTask (hi : Inv s) (i : Nat) : Inv (s.dropTask i) where
  started := hi.started
  current := hi.current
  last := hi.last
  boots := hi.boots
  times := hi.times
  seals x hx hboot := (hi.seals x hx hboot).later (later_dropTask s i)
  tasks t ht := (hi.tasks t (List.mem_of_mem_eraseIdx ht)).later (later_dropTask s i)
  events := hi.events

theorem Inv.tick (hi : Inv s) (ms : Nat) : Inv { s with clock := s.clock + ms } := by
  have hlater : Later s { s with clock := s.clock + ms } :=
    ⟨rfl, rfl, List.Subset.refl _, Nat.le_add_right _ _⟩
  exact {
    started := hi.started
    current := hi.current
    last := hi.last
    boots := hi.boots
    times := fun e he => Nat.le_trans (hi.times e he) (Nat.le_add_right _ _)
    seals := fun x hx hboot => (hi.seals x hx hboot).later hlater
    tasks := fun task htask => (hi.tasks task htask).later hlater
    events := hi.events }

/-- After a restart no seal is the process's own. -/
theorem Inv.restart (hi : Inv s) {config : AuthConfig} {registry : ProviderRegistry AuthProvider}
    (h : config.registry = .ok registry) :
    Inv { s with
      config := config, registry := registry, boot := s.boot + 1, tasks := [],
      configs := s.configs ++ [config] } where
  started := h
  current := by
    change (s.configs ++ [config])[s.boot + 1]? = some config
    rw [← hi.last, List.getElem?_append_right (Nat.le_refl _)]
    simp
  last := by
    change (s.configs ++ [config]).length = s.boot + 1 + 1
    simp [hi.last]
  boots x hx := Nat.le_succ_of_le (hi.boots x hx)
  times := hi.times
  seals := by
    intro x hx hboot
    have hle := hi.boots x hx
    have heq : x.boot = s.boot + 1 := hboot
    omega
  tasks := by
    intro task htask
    cases htask
  events e he := (hi.events e he).mono (List.Subset.refl _) (List.prefix_append _ _)

/-! ## Every step keeps it -/

theorem Inv.rawUnseal (hi : Inv s) {raw : RawCookie} {payload : Payload} (h : s.rawUnseal raw = some payload) :
    ∃ x : Seal, x.payload = payload ∧ s.SealOk x ∧ s.clock < x.expiration + sixtySecondsMs := by
  unfold Server.rawUnseal at h
  cases hx : s.seals[raw]? with
  | none =>
    rw [hx] at h
    cases h
  | some x =>
    simp only [hx, Option.ite_none_right_eq_some, Option.some.injEq] at h
    exact ⟨x, h.2, hi.seals x (List.mem_of_getElem? hx) h.1.1, h.1.2⟩

theorem Inv.unsealSession (hi : Inv s) {raw : RawCookie} {p : SessionPayload}
    (h : s.unsealSession raw = some p) : s.Backed p := by
  unfold Server.unsealSession at h
  split at h
  · rename_i p' hraw
    split at h
    · cases h
      obtain ⟨x, hx, hok, -⟩ := hi.rawUnseal hraw
      unfold SealOk at hok
      rw [hx] at hok
      exact hok.1
    · cases h
  · cases h

theorem Inv.happened_le (hi : Inv s) {t : Nat} {fact : Fact} (h : s.Happened t fact) : t ≤ s.clock :=
  hi.times _ h

theorem Inv.redirectToLoginWithFlash (hi : Inv s) (flash : FlashPayload) (cookies : List CookieChange) :
    Inv (s.redirectToLoginWithFlash flash cookies).1 := hi.sealed _ _ trivial

theorem Inv.finishRefresh (hi : Inv s) {p : SessionPayload} {now : Nat} (hp : s.Backed p)
    (hresolved : p.resolvedAt ≤ now) (hexp : now < p.exp) (hnow : now ≤ s.clock) {result : RefreshResult}
    (hresult : ∀ user, result = .ok user → s.config.Admits p.provider user) :
    Inv (s.finishRefresh p now result).1 := by
  cases result with
  | sessionExpired => exact hi.redirectToLoginWithFlash _ _
  | accessDenied => exact hi.redirectToLoginWithFlash _ _
  | ok user =>
    have hadmits := hresult user rfl
    obtain ⟨t, state, ht, hsigned, hexpt⟩ := hp.signedIn
    have hnamed := hi.log (.named p.provider p.accessToken user) trivial
    have hbacked : (s.log (.named p.provider p.accessToken user)).Backed
        ⟨p.provider, user.login, user.mail, user.orgs, p.accessToken, now, p.exp⟩ := by
      refine ⟨⟨t, state, Nat.le_trans ht hresolved, hsigned.later (later_log _ _), hexpt⟩, ?_, hadmits⟩
      exact ⟨s.clock, hnow, happened_log _ _⟩
    have hkept : p.exp ≤ s.clock + sevenDaysMs := by omega
    apply (hnamed.sealed (.session _) sevenDaysMs ⟨hbacked, hkept⟩).log
    have hhistory := List.subset_append_left (s.log (.named p.provider p.accessToken user)).history
      [⟨s.boot, s.clock, .served now p.provider p.accessToken user⟩]
    refine ⟨hnow, ⟨s.clock, Nat.le_refl _, ?_, hhistory (happened_log s _)⟩,
      ⟨t, state, Nat.le_trans ht hresolved, ?_, hhistory (hsigned.later (later_log s _))⟩, s.config, hi.current, hadmits⟩
    · unfold tenMinutesMs
      omega
    · omega

theorem Inv.sessionMiddleware (hi : Inv s) (path : String) (cookie : Option RawCookie) :
    Inv (s.sessionMiddleware path cookie).1 := by
  cases cookie with
  | none => exact hi
  | some raw =>
    unfold Server.sessionMiddleware
    cases hraw : s.unsealSession raw with
    | none => simpa only [hraw] using hi.redirectToLoginWithFlash _ _
    | some p =>
      simp only [hraw]
      have hp := hi.unsealSession hraw
      by_cases hexp : isExpired p s.clock = true
      · simpa only [hexp, if_true] using hi.redirectToLoginWithFlash _ _
      · simp only [hexp]
        have hlt : s.clock < p.exp := by simpa [isExpired] using hexp
        cases hprovider : s.registry.byId p.provider with
        | none => exact hi.redirectToLoginWithFlash _ _
        | some provider =>
          by_cases hstale : isStale p s.clock = true
          · have hresolved : p.resolvedAt ≤ s.clock := by
              have := of_decide_eq_true hstale
              omega
            simp only [hstale, if_true]
            cases provider with
            | github users orgs =>
              exact hi.addTask ⟨hp, eq_github_of_byId hi.started hprovider, hresolved, hlt, Nat.le_refl _⟩
            | «local» entries =>
              apply hi.finishRefresh hp hresolved hlt (Nat.le_refl _)
              intro user huser
              have hid := eq_local_of_byId hi.started hprovider
              unfold refreshLocal at huser
              cases hname : (byName entries).get? p.login with
              | none =>
                rw [hname] at huser
                cases huser
              | some entry =>
                rw [hname] at huser
                cases huser
                rw [hid] at hprovider ⊢
                exact admits_of_byName hi.started hprovider hname
          · simp only [hstale]
            have hfresh : s.clock < p.resolvedAt + tenMinutesMs := by simpa [isStale] using hstale
            obtain ⟨t, state, ht, hsigned, hexpt⟩ := hp.signedIn
            obtain ⟨t', ht', hnamed⟩ := hp.named
            apply hi.log
            have hhistory := List.subset_append_left s.history
              [⟨s.boot, s.clock, .served s.clock p.provider p.accessToken (userFromPayload p)⟩]
            refine ⟨Nat.le_refl _, ⟨t', hi.happened_le hnamed, ?_, hhistory hnamed⟩,
              ⟨t, state, hi.happened_le hsigned, ?_, hhistory hsigned⟩, s.config, hi.current, hp.admitted⟩
            · omega
            · omega

theorem Inv.githubSignin (hi : Inv s) (returnTo : Option String) (state : String) :
    Inv (s.githubSignin returnTo state).1 := by
  apply (hi.log (.started state) trivial).sealed
  exact ⟨s.clock, happened_log s _, rfl⟩

theorem Inv.callback (hi : Inv s) (code stateParam : Option String) (cookie : Option RawCookie) :
    Inv (s.callback code stateParam cookie).1 := by
  unfold Server.callback
  split
  · rename_i code stateParam raw
    split
    · rename_i payload hraw
      split
      · obtain ⟨x, hx, hok, hlt⟩ := hi.rawUnseal hraw
        unfold SealOk at hok
        rw [hx] at hok
        obtain ⟨t, hstarted, hexp⟩ := hok
        have hlog : Inv (s.log (.accepted code payload.state)) := by
          apply hi.log
          refine ⟨t, hi.happened_le hstarted, ?_, (later_log s _).history hstarted⟩
          change s.clock < _
          omega
        exact hlog.addTask ⟨s.clock, happened_log s _⟩
      · exact hi
    · exact hi
  · exact hi

theorem Inv.finishExchange (hi : Inv s) {code : String} {state : StatePayload}
    (h : ∃ t, s.Happened t (.accepted code state.state)) (result : Result String) :
    Inv (s.finishExchange code state result).1 := by
  obtain ⟨t, ht⟩ := h
  cases result with
  | failed status => exact hi
  | ok accessToken =>
    apply (hi.log (.issued code accessToken) trivial).addTask
    exact ⟨t, s.clock, hi.happened_le ht, ht.later (later_log s _), happened_log s _⟩

/-- A new session: the provider names the user, and the sign-in is of the same moment. -/
theorem Inv.newSession (hi : Inv s) {provider accessToken : String} {state : Option String} {user : UserContext}
    (hadmits : s.config.Admits provider user)
    (hsigned : Justified ((s.log (.named provider accessToken user)).log
      (.signedIn provider accessToken state)).history s.configs
        ⟨s.boot, s.clock, .signedIn provider accessToken state⟩) :
    Inv (((s.log (.named provider accessToken user)).log (.signedIn provider accessToken state)).sealed
      (.session ⟨provider, user.login, user.mail, user.orgs, accessToken, s.clock, s.clock + sevenDaysMs⟩)
      sevenDaysMs) := by
  have hlog := (hi.log (.named provider accessToken user) trivial).log (.signedIn provider accessToken state) hsigned
  apply hlog.sealed
  refine ⟨⟨⟨s.clock, state, Nat.le_refl _, happened_log _ _, rfl⟩, ⟨s.clock, Nat.le_refl _, ?_⟩, hadmits⟩,
    Nat.le_refl _⟩
  exact (happened_log s _).later (later_log _ _)

theorem Inv.finishResolve (hi : Inv s) {users orgs : List String}
    (hprovider : s.registry.byId "github" = some (.github users orgs)) {code accessToken : String}
    {state : StatePayload} (h : s.TaskOk (.resolve code accessToken state)) (result : Result UserContext) :
    Inv (s.finishResolve users orgs accessToken state result).1 := by
  cases result with
  | failed status => exact hi
  | ok user =>
    unfold Server.finishResolve
    by_cases hallowed : isAllowed user users orgs = true
    · simp only [hallowed, if_true]
      apply hi.newSession (admits_of_isAllowed hi.started hprovider hallowed)
      obtain ⟨t, t', htt, haccepted, hissued⟩ := h
      have hlater := fun {t fact} (hp : s.Happened t fact) =>
        (hp.later (later_log s (.named "github" accessToken user))).later
          (later_log _ (.signedIn "github" accessToken (some state.state)))
      exact ⟨rfl, code, t, t', htt, hi.happened_le hissued, hlater haccepted, hlater hissued⟩
    · simp only [hallowed]
      exact hi.redirectToLoginWithFlash _ _

theorem Inv.localSignin (hi : Inv s) {entries : List LocalEntry}
    (hprovider : s.registry.byId "local" = some (.local entries)) (user returnTo : Option String) :
    Inv (s.localSignin entries user returnTo).1 := by
  unfold Server.localSignin
  cases hname : (byName entries).get? (user.getD "") with
  | none => exact hi
  | some entry => exact hi.newSession (admits_of_byName hi.started hprovider hname) rfl

theorem Inv.finishApi (hi : Inv s) {provider accessToken : String} {user : Option UserContext}
    (h : ∀ u, user = some u → s.config.Admits provider u) : Inv (s.finishApi provider accessToken user).1 := by
  cases user with
  | none => exact hi
  | some user =>
    apply (hi.log (.named provider accessToken user) trivial).log
    exact ⟨(happened_log s _).later (later_log _ _), s.config, hi.current, h user rfl⟩

theorem Inv.apiAuthMiddleware (hi : Inv s) (providerHeader authorization : Option String) :
    Inv (s.apiAuthMiddleware providerHeader authorization).1 := by
  unfold Server.apiAuthMiddleware
  split
  · exact hi
  · rename_i id _
    cases hprovider : s.registry.byId id with
    | none => exact hi
    | some provider =>
      cases provider with
      | github users orgs =>
        cases hcred : credential "Bearer " authorization with
        | none => exact hi
        | some token => exact hi.addTask (show s.TaskOk (.api token) from trivial)
      | «local» entries =>
        have hid := eq_local_of_byId hi.started hprovider
        subst hid
        apply hi.finishApi
        intro u hu
        obtain ⟨entry, hentry, rfl⟩ := Option.map_eq_some_iff.mp hu
        obtain ⟨name, -, hname⟩ := Option.bind_eq_some_iff.mp hentry
        exact admits_of_byName hi.started hprovider hname

theorem Inv.finishTask (hi : Inv s) {users orgs : List String}
    (hprovider : s.registry.byId "github" = some (.github users orgs)) {task : Task} (htask : s.TaskOk task)
    {result : Result UserContext} {o : Server × Option Response}
    (h : s.finishTask users orgs result task = some o) : Inv o.1 := by
  cases task with
  | refresh p now =>
    cases h
    obtain ⟨hp, hid, hresolved, hexp, hnow⟩ := htask
    apply hi.finishRefresh hp hresolved hexp hnow
    intro user huser
    cases result with
    | failed status => cases huser
    | ok user' =>
      unfold refreshGithub at huser
      by_cases hallowed : isAllowed user' users orgs = true
      · simp only [hallowed, if_true] at huser
        cases huser
        rw [hid]
        exact admits_of_isAllowed hi.started hprovider hallowed
      · simp only [hallowed] at huser
        cases huser
  | exchange code state => cases h
  | resolve code accessToken state =>
    cases h
    exact hi.finishResolve hprovider htask result
  | api accessToken =>
    cases h
    apply hi.finishApi
    intro user huser
    cases result with
    | failed status => cases huser
    | ok user' =>
      unfold finishApiGithub at huser
      by_cases hallowed : isAllowed user' users orgs = true
      · simp only [hallowed, if_true] at huser
        cases huser
        exact admits_of_isAllowed hi.started hprovider hallowed
      · simp only [hallowed] at huser
        cases huser

theorem Inv.handle (hi : Inv s) {a : Action} {o : Server × Option Response} (h : s.handle a = some o) : Inv o.1 := by
  cases a with
  | tick ms =>
    cases h
    exact hi.tick ms
  | githubSignin returnTo state =>
    simp only [Server.handle] at h
    split at h
    · cases h
      exact hi.githubSignin returnTo state
    · cases h
  | callback code stateParam cookie =>
    simp only [Server.handle] at h
    split at h
    · cases h
      exact hi.callback code stateParam cookie
    · cases h
  | exchanged i answer =>
    simp only [Server.handle] at h
    split at h
    · rename_i code state htask
      cases h
      obtain ⟨t, ht⟩ := hi.tasks _ (List.mem_of_getElem? htask)
      exact (hi.dropTask i).finishExchange ⟨t, ht.later (later_dropTask s i)⟩ _
    · cases h
  | resolved i user orgs =>
    simp only [Server.handle] at h
    split at h
    · rename_i task users allowed htask hprovider
      have hok := (hi.tasks _ (List.mem_of_getElem? htask)).later (later_dropTask s i)
      exact (hi.dropTask i).finishTask hprovider hok h
    · cases h
  | localSignin user returnTo =>
    simp only [Server.handle] at h
    split at h
    · rename_i entries hprovider
      cases h
      exact hi.localSignin hprovider user returnTo
    · cases h
  | request path cookie =>
    cases h
    exact hi.sessionMiddleware path cookie
  | apiRequest providerHeader authorization =>
    cases h
    exact hi.apiAuthMiddleware providerHeader authorization
  | logout =>
    cases h
    exact hi.sealed _ _ trivial
  | restart config =>
    simp only [Server.handle] at h
    split at h
    · cases h
    · rename_i registry hregistry
      cases h
      exact hi.restart hregistry

theorem inv_of_run {as : List Action} {t : Server} (h : exec step initial as = some t) : Inv t := by
  refine exec_invariant ?_ inv_initial h
  intro s a t hi hstep
  obtain ⟨o, ho, rfl⟩ := Option.map_eq_some_iff.mp hstep
  exact hi.handle ho

/-! ## Letting somebody in -/

/-- The history says on what an outcome lets its user in. -/
def Recorded (o : Server × Option Response) : Prop :=
  ∀ user cookies, o.2 = some (.next user cookies) → ∃ provider accessToken,
    (∃ checkedAt, o.1.Happened o.1.clock (.served checkedAt provider accessToken user)) ∨
      o.1.Happened o.1.clock (.identified provider accessToken user)

theorem recorded_of_not_next {o : Server × Option Response}
    (h : ∀ user cookies, o.2 ≠ some (.next user cookies)) : Recorded o :=
  fun user cookies hnext => absurd hnext (h user cookies)

theorem recorded_redirect (s : Server) (flash : FlashPayload) (cookies : List CookieChange) :
    Recorded (s.redirectToLoginWithFlash flash cookies) := by
  apply recorded_of_not_next
  intro user cookies' h
  cases h

theorem recorded_finishRefresh (s : Server) (p : SessionPayload) (now : Nat) (result : RefreshResult) :
    Recorded (s.finishRefresh p now result) := by
  cases result with
  | sessionExpired => exact recorded_redirect _ _ _
  | accessDenied => exact recorded_redirect _ _ _
  | ok user =>
    intro user' cookies h
    cases h
    exact ⟨p.provider, p.accessToken, Or.inl ⟨now, happened_log _ _⟩⟩

theorem recorded_sessionMiddleware (s : Server) (path : String) (cookie : Option RawCookie) :
    Recorded (s.sessionMiddleware path cookie) := by
  unfold Server.sessionMiddleware
  split
  · apply recorded_of_not_next
    intro user cookies h
    cases h
  · split
    · exact recorded_redirect _ _ _
    · rename_i p _
      split
      · exact recorded_redirect _ _ _
      · split
        · exact recorded_redirect _ _ _
        · split
          · split
            · apply recorded_of_not_next
              intro user cookies h
              cases h
            · exact recorded_finishRefresh _ _ _ _
          · intro user cookies h
            cases h
            exact ⟨p.provider, p.accessToken, Or.inl ⟨s.clock, happened_log s _⟩⟩

theorem recorded_finishApi (s : Server) (provider accessToken : String) (user : Option UserContext) :
    Recorded (s.finishApi provider accessToken user) := by
  cases user with
  | none =>
    apply recorded_of_not_next
    intro user cookies h
    cases h
  | some user =>
    intro user' cookies h
    cases h
    exact ⟨provider, accessToken, Or.inr (happened_log _ _)⟩

/-- The routes of the providers answer, but run no handler. -/
theorem not_next_of_route {a : Action} {o : Server × Option Response} (h : s.handle a = some o)
    (hresolved : ∀ i user orgs, a ≠ .resolved i user orgs) (hrequest : ∀ path cookie, a ≠ .request path cookie)
    (hapi : ∀ header authorization, a ≠ .apiRequest header authorization) (user : UserContext)
    (cookies : List CookieChange) : o.2 ≠ some (.next user cookies) := by
  intro hnext
  cases a with
  | tick ms =>
    cases h
    cases hnext
  | githubSignin returnTo state =>
    simp only [Server.handle] at h
    split at h
    · cases h
      cases hnext
    · cases h
  | callback code stateParam cookie =>
    simp only [Server.handle] at h
    split at h
    · cases h
      unfold Server.callback at hnext
      split at hnext
      · split at hnext
        · split at hnext
          · cases hnext
          · cases hnext
        · cases hnext
      · cases hnext
    · cases h
  | exchanged i answer =>
    simp only [Server.handle] at h
    split at h
    · cases h
      cases hexchange : exchangeCode answer with
      | failed status =>
        rw [hexchange] at hnext
        cases hnext
      | ok accessToken =>
        rw [hexchange] at hnext
        cases hnext
    · cases h
  | resolved i user orgs => exact hresolved i user orgs rfl
  | localSignin name returnTo =>
    simp only [Server.handle] at h
    split at h
    · cases h
      unfold Server.localSignin at hnext
      split at hnext
      · cases hnext
      · cases hnext
    · cases h
  | request path cookie => exact hrequest path cookie rfl
  | apiRequest header authorization => exact hapi header authorization rfl
  | logout =>
    cases h
    cases hnext
  | restart config =>
    simp only [Server.handle] at h
    split at h
    · cases h
    · cases h
      cases hnext

theorem recorded_apiAuthMiddleware (s : Server) (header authorization : Option String) :
    Recorded (s.apiAuthMiddleware header authorization) := by
  have hrefused : Recorded (s, some unauthorized) := by
    apply recorded_of_not_next
    intro user cookies h
    cases h
  unfold Server.apiAuthMiddleware
  split
  · exact hrefused
  · split
    · exact hrefused
    · split
      · exact hrefused
      · apply recorded_of_not_next
        intro user cookies h
        cases h
    · exact recorded_finishApi _ _ _ _

theorem recorded_finishTask {users orgs : List String} {result : Result UserContext} {task : Task}
    {o : Server × Option Response} (h : s.finishTask users orgs result task = some o) : Recorded o := by
  cases task with
  | refresh p now =>
    cases h
    exact recorded_finishRefresh _ _ _ _
  | exchange code state => cases h
  | resolve code accessToken state =>
    cases h
    unfold Server.finishResolve
    apply recorded_of_not_next
    intro user cookies hnext
    split at hnext
    · cases hnext
    · split at hnext
      · cases hnext
      · cases hnext
  | api accessToken =>
    cases h
    exact recorded_finishApi _ _ _ _

theorem recorded_handle {a : Action} {o : Server × Option Response} (h : s.handle a = some o) : Recorded o := by
  cases a with
  | resolved i user orgs =>
    simp only [Server.handle] at h
    split at h
    · exact recorded_finishTask h
    · cases h
  | request path cookie =>
    cases h
    exact recorded_sessionMiddleware s path cookie
  | apiRequest header authorization =>
    cases h
    exact recorded_apiAuthMiddleware s header authorization
  | _ =>
    apply recorded_of_not_next
    apply not_next_of_route h <;> intros <;> simp

/-- In every run, a handler runs only for a user whom the provider named and the allowlist of the running process
admits: behind the session middleware for a token signed in with within seven days and on a word of the provider
that is younger than ten minutes or was asked for by the request, behind the API middleware on the spot. -/
theorem next_rests_on {as : List Action} (hrun : exec step initial as = some s) {a : Action}
    {o : Server × Option Response} (h : s.handle a = some o) {user : UserContext} {cookies : List CookieChange}
    (hnext : o.2 = some (.next user cookies)) :
    ∃ provider accessToken,
      (∃ checkedAt, ServedOk o.1.history o.1.configs o.1.boot o.1.clock checkedAt provider accessToken user) ∨
      (o.1.Happened o.1.clock (.named provider accessToken user) ∧ o.1.config.Admits provider user) := by
  have hi := (inv_of_run hrun).handle h
  obtain ⟨provider, accessToken, ⟨checkedAt, hserved⟩ | hidentified⟩ := recorded_handle h user cookies hnext
  · exact ⟨provider, accessToken, Or.inl ⟨checkedAt, hi.events _ hserved⟩⟩
  · obtain ⟨hnamed, config, hconfig, hadmits⟩ := hi.events _ hidentified
    obtain rfl : o.1.config = config := Option.some.inj (hi.current.symm.trans hconfig)
    exact ⟨provider, accessToken, Or.inr ⟨hnamed, hadmits⟩⟩

def aliceConfig : AuthConfig :=
  ⟨some "github:user:alice", false, ⟨some "id", some "secret", some "https://host"⟩⟩

/-- Alice signs in with GitHub. -/
def aliceRun : List Action :=
  [.restart aliceConfig, .githubSignin (some "/dashboard") "drawn", .tick 1000,
    .callback (some "code") (some "drawn") (some 0), .exchanged 0 (.response true 200 (some (some "token"))),
    .resolved 0 (.response true 200 (some ⟨"alice", none⟩)) (.response true 200 (some ["acme"]))]

def aliceSignedIn : Server := (exec step initial aliceRun).getD initial

theorem next_rests_on_alice : ∃ o, aliceSignedIn.handle (.request "/dashboard" (some 1)) = some o ∧
    ∃ provider accessToken,
      (∃ checkedAt, ServedOk o.1.history o.1.configs o.1.boot o.1.clock checkedAt provider accessToken
        ⟨"alice", "", ["alice", "acme"]⟩) ∨
      (o.1.Happened o.1.clock (.named provider accessToken ⟨"alice", "", ["alice", "acme"]⟩) ∧
        o.1.config.Admits provider ⟨"alice", "", ["alice", "acme"]⟩) := by
  have hrun : exec step initial aliceRun = some aliceSignedIn := rfl
  have hrequest : aliceSignedIn.handle (.request "/dashboard" (some 1)) =
      some (aliceSignedIn.sessionMiddleware "/dashboard" (some 1)) := rfl
  exact ⟨_, hrequest, next_rests_on hrun hrequest rfl⟩

/-- In every run, a session cookie lasts until seven days after its sign-in and not longer, however often it is
refreshed: before, the middleware lets its user in at once or asks the provider anew, who then is there to ask. -/
theorem session_lasts {as : List Action} (hrun : exec step initial as = some s) {raw : RawCookie} {x : Seal}
    {p : SessionPayload} (hx : s.seals[raw]? = some x) (hboot : x.boot = s.boot) (hp : x.payload = .session p)
    (path : String) :
    ∃ t₀ state, s.Happened t₀ (.signedIn p.provider p.accessToken state) ∧
      (t₀ + sevenDaysMs ≤ s.clock →
        s.handle (.request path (some raw)) = some (s.redirectToLoginWithFlash .loggedOut [])) ∧
      (s.clock < t₀ + sevenDaysMs → s.clock < p.resolvedAt + tenMinutesMs →
        s.handle (.request path (some raw)) = some (s.log (.served s.clock p.provider p.accessToken (userFromPayload p)),
          some (.next (userFromPayload p) []))) ∧
      (s.clock < t₀ + sevenDaysMs → p.resolvedAt + tenMinutesMs ≤ s.clock →
        (p.provider = "github" ∧ s.handle (.request path (some raw)) = some (s.addTask (.refresh p s.clock), none)) ∨
        (p.provider = "local" ∧ ∃ e, s.config.Admits "local" (userFromEntry e) ∧
          s.handle (.request path (some raw)) = some (s.finishRefresh p s.clock (.ok (userFromEntry e))))) := by
  have hi := inv_of_run hrun
  have hok := hi.seals x (List.mem_of_getElem? hx) hboot
  unfold SealOk at hok
  rw [hp] at hok
  obtain ⟨⟨⟨t₀, state, ht, hsigned, hexp⟩, hnamed, hadmits⟩, hle⟩ := hok
  have hregistered := registered_of_admits hi.started hadmits
  have hid : p.provider = "github" ∨ p.provider = "local" := hregistered.imp And.left And.left
  have hunseal : s.clock < p.exp → s.unsealSession raw = some p := by
    intro hlt
    have hopen : s.clock < x.expiration + sixtySecondsMs := by omega
    have hraw : s.rawUnseal raw = some (.session p) := by
      simp only [Server.rawUnseal, hx, hboot, hopen, and_self, if_true, hp]
    simp only [Server.unsealSession, hraw, hid, if_true]
  refine ⟨t₀, state, hsigned, ?_, ?_, ?_⟩
  · intro hlate
    have hpast : isExpired p s.clock = true := decide_eq_true (by omega)
    simp only [Server.handle, Server.sessionMiddleware]
    cases hraw : s.unsealSession raw with
    | none => rfl
    | some p' =>
      -- the payload is the sealed one, which is all that the seal can give
      have hsame : p' = p := by
        unfold Server.unsealSession Server.rawUnseal at hraw
        rw [hx] at hraw
        by_cases hopen : x.boot = s.boot ∧ s.clock < x.expiration + sixtySecondsMs
        · simp only [hopen, and_self, if_true, hp, hid, Option.some.injEq] at hraw
          exact hraw.symm
        · simp [hopen] at hraw
      subst hsame
      simp only [hpast, if_true]
  · intro hlt hfresh
    have hnot : isExpired p s.clock = false := decide_eq_false (by omega)
    have hnotStale : isStale p s.clock = false := decide_eq_false (by omega)
    simp only [Server.handle, Server.sessionMiddleware, hunseal (by omega), hnot, hnotStale]
    rcases hregistered with ⟨hgithub, users, orgs, hfound⟩ | ⟨hlocal, entries, e, hfound, -⟩
    · rw [hgithub, hfound]
      rfl
    · rw [hlocal, hfound]
      rfl
  · intro hlt hold
    have hnot : isExpired p s.clock = false := decide_eq_false (by omega)
    have hstale : isStale p s.clock = true := decide_eq_true hold
    simp only [Server.handle, Server.sessionMiddleware, hunseal (by omega), hnot, hstale]
    rcases hregistered with ⟨hgithub, users, orgs, hfound⟩ | ⟨hlocal, entries, e, hfound, hname⟩
    · refine Or.inl ⟨hgithub, ?_⟩
      rw [hgithub, hfound]
      rfl
    · refine Or.inr ⟨hlocal, e, admits_of_byName hi.started hfound hname, ?_⟩
      have hrefresh : refreshLocal entries p = .ok (userFromEntry e) := by
        rw [refreshLocal, show (byName entries).get? p.login = some e from hname]
      rw [hlocal, hfound]
      simp only [Bool.false_eq_true, if_false, if_true, hrefresh]

theorem session_lasts_alice : ∃ x p t₀ state, aliceSignedIn.seals[1]? = some x ∧ x.payload = .session p ∧
    aliceSignedIn.Happened t₀ (.signedIn p.provider p.accessToken state) ∧
      (aliceSignedIn.clock < t₀ + sevenDaysMs → aliceSignedIn.clock < p.resolvedAt + tenMinutesMs →
        aliceSignedIn.handle (.request "/dashboard" (some 1)) =
          some (aliceSignedIn.log (.served aliceSignedIn.clock p.provider p.accessToken (userFromPayload p)),
            some (.next (userFromPayload p) []))) := by
  have hrun : exec step initial aliceRun = some aliceSignedIn := rfl
  have hcookie : aliceSignedIn.seals[1]? = some _ := rfl
  obtain ⟨t₀, state, hsigned, -, hfresh, -⟩ := session_lasts hrun hcookie rfl rfl "/dashboard"
  exact ⟨_, _, t₀, state, rfl, rfl, hsigned, hfresh⟩

/-- In every run, a session with GitHub starts only from a callback whose state the server had drawn for a sign-in
less than six minutes before, and with the token that GitHub issued for the code of that callback. -/
theorem github_signIn_chain {as : List Action} (hrun : exec step initial as = some s) {boot time : Nat}
    {accessToken : String} {state : Option String}
    (h : ⟨boot, time, .signedIn "github" accessToken state⟩ ∈ s.history) :
    ∃ st code t₀ t₁ t₂, state = some st ∧ t₀ ≤ t₁ ∧ t₁ < t₀ + fiveMinutesMs + sixtySecondsMs ∧ t₁ ≤ t₂ ∧
      t₂ ≤ time ∧ ⟨boot, t₀, .started st⟩ ∈ s.history ∧ ⟨boot, t₁, .accepted code st⟩ ∈ s.history ∧
      ⟨boot, t₂, .issued code accessToken⟩ ∈ s.history := by
  have hi := inv_of_run hrun
  cases state with
  | none =>
    have habsurd : "github" = "local" := hi.events _ h
    simp at habsurd
  | some st =>
    obtain ⟨-, code, t₁, t₂, htt, ht, haccepted, hissued⟩ := hi.events _ h
    obtain ⟨t₀, hle, hlt, hstarted⟩ := hi.events _ haccepted
    exact ⟨st, code, t₀, t₁, t₂, rfl, hle, hlt, htt, ht, hstarted, haccepted, hissued⟩

theorem github_signIn_chain_alice : ∃ st code t₀ t₁ t₂, some "drawn" = some st ∧ t₀ ≤ t₁ ∧
    t₁ < t₀ + fiveMinutesMs + sixtySecondsMs ∧ t₁ ≤ t₂ ∧ t₂ ≤ 1000 ∧
      ⟨1, t₀, .started st⟩ ∈ aliceSignedIn.history ∧ ⟨1, t₁, .accepted code st⟩ ∈ aliceSignedIn.history ∧
      ⟨1, t₂, .issued code "token"⟩ ∈ aliceSignedIn.history := by
  have hrun : exec step initial aliceRun = some aliceSignedIn := rfl
  have hmem : aliceSignedIn.history[4]? = some ⟨1, 1000, .signedIn "github" "token" (some "drawn")⟩ := rfl
  exact github_signIn_chain hrun (List.mem_of_getElem? hmem)

end Server

end WorkflowEngine.Runtime.Auth
