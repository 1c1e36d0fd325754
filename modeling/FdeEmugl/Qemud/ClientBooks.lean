import FdeEmugl.Qemud.Multiplexer

/-!
# The books on the clients of qemud

A service lists its clients and counts them. The books stay right in every run that never connects a channel
twice or a pipe to a full service, and that loads a service only while it has no client.
-/

namespace FdeEmugl.Qemud

open OwnerIndex Runs

variable {clients : List ListedClient}

theorem map_id_nodup_filter (h : (clients.map ListedClient.id).Nodup) (p : ListedClient → Bool) :
    ((clients.filter p).map ListedClient.id).Nodup :=
  h.sublist (List.filter_sublist.map ListedClient.id)

theorem mem_ids_filter {c : ListedClient} {id : ℕ} :
    id ∈ (clients.filter fun other ↦ other.id ≠ c.id).map ListedClient.id ↔
      id ∈ clients.map ListedClient.id ∧ id ≠ c.id := by
  simp only [List.mem_map, List.mem_filter, decide_eq_true_eq]
  constructor
  · rintro ⟨other, ⟨hother, hne⟩, rfl⟩
    exact ⟨⟨other, hother, rfl⟩, hne⟩
  · rintro ⟨⟨other, hother, rfl⟩, hne⟩
    exact ⟨other, ⟨hother, hne⟩, rfl⟩

theorem eq_of_id_eq (h : (clients.map ListedClient.id).Nodup) {c other : ListedClient} (hc : c ∈ clients)
    (hother : other ∈ clients) (hid : c.id = other.id) : c = other :=
  List.inj_on_of_nodup_map h hc hother hid

/-- The clients are counted, and there are no more than there may be. -/
structure QemudService.InOrder (s : QemudService) : Prop where
  count : s.num_clients = s.clients.length
  limit : 0 < s.max_clients → s.num_clients ≤ s.max_clients

namespace QemudMultiplexer

variable {m : QemudMultiplexer}

def channels (m : QemudMultiplexer) : List ℤ := m.clients.filterMap ListedClient.channel

/-- A service takes one more client. -/
def HasRoom (m : QemudMultiplexer) (sv : ℕ) : Prop :=
  0 < (m.service sv).max_clients → (m.service sv).num_clients < (m.service sv).max_clients

instance decidableHasRoom (m : QemudMultiplexer) (sv : ℕ) : Decidable (m.HasRoom sv) := by
  unfold HasRoom
  infer_instance

/-- The invariant. -/
structure Sound (m : QemudMultiplexer) : Prop where
  index : Consistent (fun id ↦ id ∈ m.clients.map ListedClient.id) fun sv ↦ (m.service sv).clients
  owner : ∀ c ∈ m.clients, ∀ sv, c.id ∈ (m.service sv).clients ↔ c.service = some sv
  inOrder : ∀ sv, (m.service sv).InOrder
  ids : (m.clients.map ListedClient.id).Nodup
  fresh : ∀ c ∈ m.clients, c.id < m.nextClient
  services : ∀ sv ∈ m.services, sv < m.services.length
  registered : ∀ sv, m.services.length ≤ sv → (m.service sv).clients = []
  channels : m.channels.Nodup

/-- The services have kept their places and names. -/
structure SameServices (m after : QemudMultiplexer) : Prop where
  services : after.services = m.services
  name : ∀ sv, (after.service sv).name = (m.service sv).name

variable {after : QemudMultiplexer} {c : ListedClient} (base : QemudMultiplexer) {clients : List SavedClient}
  {accepts : Bool}

theorem SameServices.refl (m : QemudMultiplexer) : m.SameServices m := ⟨rfl, fun _ ↦ rfl⟩

theorem SameServices.trans {middle : QemudMultiplexer} (h : m.SameServices middle)
    (h' : middle.SameServices after) : m.SameServices after :=
  ⟨h'.services.trans h.services, fun sv ↦ (h'.name sv).trans (h.name sv)⟩

theorem SameServices.find_eq (h : m.SameServices after) (name : List UInt8) :
    after.qemud_service_find name = m.qemud_service_find name := by
  unfold qemud_service_find
  rw [h.services]
  simp only [h.name]

theorem Sound.lt_of_find (h : m.Sound) {name : List UInt8} {sv : ℕ} (hfind : m.qemud_service_find name = some sv) :
    sv < m.services.length :=
  h.services sv (List.mem_of_find?_eq_some hfind)

theorem sound_init : init.Sound where
  index := consistent_nil _
  owner c hc sv := by
    obtain rfl := List.mem_singleton.mp hc
    exact iff_of_false List.not_mem_nil nofun
  inOrder _ := ⟨rfl, le_of_lt⟩
  ids := List.nodup_singleton 0
  fresh c hc := by
    obtain rfl := List.mem_singleton.mp hc
    exact Nat.zero_lt_one
  services _ hsv := nomatch hsv
  registered _ _ := rfl
  channels := List.nodup_singleton 0

/-! ## Changing one service -/

theorem clients_update (service : ℕ → QemudService) (sv : ℕ) (changed : QemudService) :
    (fun other ↦ (Function.update service sv changed other).clients) =
      Function.update (fun other ↦ (service other).clients) sv changed.clients :=
  funext fun other ↦ Function.apply_update (fun _ ↦ QemudService.clients) service sv changed other

/-- What holds of the changed service and of all others. -/
theorem forall_update {p : ℕ → QemudService → Prop} {service : ℕ → QemudService} {sv : ℕ} {changed : QemudService}
    (hchanged : p sv changed) (hothers : ∀ other, other ≠ sv → p other (service other)) (other : ℕ) :
    p other (Function.update service sv changed other) := by
  by_cases heq : other = sv
  · rw [heq, Function.update_self]
    exact hchanged
  · rw [Function.update_of_ne heq]
    exact hothers other heq

/-- A service without clients may be told anything, as long as it is told that it has none. -/
theorem Sound.reset (h : m.Sound) {sv : ℕ} (hempty : (m.service sv).clients = []) (name : List UInt8)
    (max_clients : ℤ) :
    ({ m with service := Function.update m.service sv ⟨name, max_clients, 0, []⟩ } : QemudMultiplexer).Sound := by
  have hclients : ∀ other, (Function.update m.service sv ⟨name, max_clients, 0, []⟩ other).clients =
      (m.service other).clients :=
    forall_update (p := fun other after ↦ after.clients = (m.service other).clients) hempty.symm fun _ _ ↦ rfl
  refine ⟨?_, fun c hc other ↦ ?_, ?_, h.ids, h.fresh, h.services, fun other hother ↦ ?_, h.channels⟩
  · simp only [hclients]
    exact h.index
  · rw [hclients]
    exact h.owner c hc other
  · exact forall_update (p := fun _ ↦ QemudService.InOrder) ⟨rfl, le_of_lt⟩ fun other _ ↦ h.inOrder other
  · rw [hclients]
    exact h.registered other hother

/-- A service is registered under a number that no client has. -/
theorem Sound.register (h : m.Sound) (name : List UInt8) (max_clients : ℤ) :
    (m.qemud_service_register name max_clients).Sound := by
  have hreset := h.reset (h.registered m.services.length le_rfl) name max_clients
  refine { hreset with services := fun sv hsv ↦ ?_, registered := fun sv hsv ↦ ?_ }
  · obtain rfl | hsv := List.mem_cons.mp hsv
    · exact Nat.lt_succ_self m.services.length
    · exact Nat.lt_succ_of_lt (h.services sv hsv)
  · exact hreset.registered sv (Nat.le_of_succ_le hsv)

/-! ## A client comes -/

section

variable (m : QemudMultiplexer) (sv : ℕ) (channelId : ℤ)

theorem sameServices_client_new : m.SameServices (m.qemud_client_new sv channelId) :=
  ⟨rfl, forall_update (p := fun other after ↦ after.name = (m.service other).name) rfl fun _ _ ↦ rfl⟩

theorem max_clients_client_new :
    ∀ other, ((m.qemud_client_new sv channelId).service other).max_clients = (m.service other).max_clients :=
  forall_update (p := fun other after ↦ after.max_clients = (m.service other).max_clients) rfl fun _ _ ↦ rfl

theorem num_clients_client_new : ∀ other, ((m.qemud_client_new sv channelId).service other).num_clients =
      (m.service other).num_clients + if other = sv then 1 else 0 :=
  forall_update
    (p := fun other after ↦ after.num_clients = (m.service other).num_clients + if other = sv then 1 else 0)
    (by rw [if_pos rfl]) fun other hne ↦ by rw [if_neg hne, add_zero]

theorem channels_client_new :
    (m.qemud_client_new sv channelId).channels = if channelId < 0 then m.channels else channelId :: m.channels := by
  unfold channels qemud_client_new qemud_service_add_client
  split_ifs <;> rfl

end

theorem mem_clients_client_new {sv other id : ℕ} {channelId : ℤ} :
    id ∈ ((m.qemud_client_new sv channelId).service other).clients ↔
      other = sv ∧ id = m.nextClient ∨ id ∈ (m.service other).clients := by
  change id ∈ (Function.update m.service sv _ other).clients ↔ _
  by_cases heq : other = sv
  · rw [heq, Function.update_self, List.mem_cons]
    simp only [true_and]
  · rw [Function.update_of_ne heq]
    simp only [heq, false_and, false_or]

/-- A new client is listed twice and counted. -/
theorem Sound.client_new (h : m.Sound) {sv : ℕ} {channelId : ℤ} (hsv : sv < m.services.length) (hroom : m.HasRoom sv)
    (hfree : 0 ≤ channelId → channelId ∉ m.channels) : (m.qemud_client_new sv channelId).Sound := by
  have hnew : m.nextClient ∉ m.clients.map ListedClient.id := by
    intro hmem
    obtain ⟨c, hc, hid⟩ := List.mem_map.mp hmem
    exact Nat.lt_irrefl m.nextClient (hid ▸ h.fresh c hc)
  have hunlisted (other : ℕ) : m.nextClient ∉ (m.service other).clients := fun hmem ↦
    hnew (h.index.live_of_mem other m.nextClient hmem)
  have hclients : (fun other ↦ ((m.qemud_client_new sv channelId).service other).clients) =
      Function.update (fun other ↦ (m.service other).clients) sv
        ((m.service sv).clients.insert m.nextClient) := by
    rw [List.insert_of_not_mem (hunlisted sv)]
    exact clients_update m.service sv _
  refine ⟨?_, fun c hc other ↦ ?_, ?_, ?_, fun c hc ↦ ?_, h.services, fun other hother ↦ ?_, ?_⟩
  · rw [hclients]
    exact h.index.insert hnew (fun other ↦ List.mem_cons_of_mem m.nextClient) List.mem_cons_self
  · rw [mem_clients_client_new]
    obtain rfl | hc := List.mem_cons.mp hc
    · simp only [and_true, hunlisted, or_false, Option.some.injEq]
      exact eq_comm
    · have hne : c.id ≠ m.nextClient := (h.fresh c hc).ne
      simp only [hne, and_false, false_or]
      exact h.owner c hc other
  · refine forall_update (p := fun _ ↦ QemudService.InOrder) ⟨?_, fun hmax ↦ ?_⟩ fun other _ ↦ h.inOrder other
    · rw [List.length_cons, Nat.cast_succ, ← (h.inOrder sv).count]
    · exact hroom hmax
  · exact List.nodup_cons.mpr ⟨hnew, h.ids⟩
  · obtain rfl | hc := List.mem_cons.mp hc
    · exact Nat.lt_succ_self m.nextClient
    · exact Nat.lt_succ_of_lt (h.fresh c hc)
  · have hne : other ≠ sv := (Nat.lt_of_lt_of_le hsv hother).ne'
    change (Function.update m.service sv _ other).clients = []
    rw [Function.update_of_ne hne]
    exact h.registered other hother
  · rw [channels_client_new]
    split_ifs with hchannel
    · exact h.channels
    · exact List.nodup_cons.mpr ⟨hfree (not_lt.mp hchannel), h.channels⟩

/-! ## A client goes -/

/-- The services have kept their places, names and limits. -/
structure SameLimits (m after : QemudMultiplexer) : Prop extends SameServices m after where
  max_clients : ∀ sv, (after.service sv).max_clients = (m.service sv).max_clients

theorem SameLimits.refl (m : QemudMultiplexer) : m.SameLimits m := ⟨.refl m, fun _ ↦ rfl⟩

theorem SameLimits.trans {middle : QemudMultiplexer} (h : m.SameLimits middle) (h' : middle.SameLimits after) :
    m.SameLimits after :=
  ⟨h.toSameServices.trans h'.toSameServices, fun sv ↦ (h'.max_clients sv).trans (h.max_clients sv)⟩

/-- The client leaves the list of the multiplexer. -/
def unlist (m : QemudMultiplexer) (c : ListedClient) : QemudMultiplexer :=
  { m with clients := m.clients.filter fun other ↦ other.id ≠ c.id }

theorem disconnect_of_none (hc : c.service = none) : m.qemud_client_disconnect c = m.unlist c := by
  unfold qemud_client_disconnect
  rw [hc]
  rfl

theorem disconnect_of_some {sv : ℕ} (hc : c.service = some sv) :
    m.qemud_client_disconnect c = (m.unlist c).qemud_service_remove_client sv c.id := by
  unfold qemud_client_disconnect
  rw [hc]
  rfl

section

variable (m : QemudMultiplexer)

theorem sameLimits_remove_client (sv id : ℕ) : m.SameLimits (m.qemud_service_remove_client sv id) := by
  unfold qemud_service_remove_client
  split_ifs
  · refine ⟨⟨rfl, ?_⟩, ?_⟩
    · exact forall_update (p := fun other after ↦ after.name = (m.service other).name) rfl fun _ _ ↦ rfl
    · exact forall_update (p := fun other after ↦ after.max_clients = (m.service other).max_clients) rfl fun _ _ ↦ rfl
  · exact .refl m

theorem clients_remove_client (sv id : ℕ) : (m.qemud_service_remove_client sv id).clients = m.clients := by
  unfold qemud_service_remove_client
  split_ifs <;> rfl

theorem sameLimits_disconnect (c : ListedClient) : m.SameLimits (m.qemud_client_disconnect c) := by
  have hunlist : m.SameLimits (m.unlist c) := ⟨⟨rfl, fun _ ↦ rfl⟩, fun _ ↦ rfl⟩
  cases hc : c.service with
  | none => rwa [disconnect_of_none hc]
  | some sv =>
    rw [disconnect_of_some hc]
    exact hunlist.trans (sameLimits_remove_client _ sv c.id)

theorem clients_disconnect (c : ListedClient) :
    (m.qemud_client_disconnect c).clients = m.clients.filter fun other ↦ other.id ≠ c.id := by
  cases hc : c.service with
  | none =>
    rw [disconnect_of_none hc]
    rfl
  | some sv =>
    rw [disconnect_of_some hc, clients_remove_client]
    rfl

end

theorem Sound.channels_filter (h : m.Sound) (p : ListedClient → Bool) :
    ((m.clients.filter p).filterMap ListedClient.channel).Nodup :=
  h.channels.sublist (List.filter_sublist.filterMap ListedClient.channel)

/-- The client of the control channel is on no list but one. -/
theorem Sound.unlist (h : m.Sound) (hc : c ∈ m.clients) (hservice : c.service = none) : (m.unlist c).Sound where
  index := h.index.of_owned fun sv id hid hlive ↦ by
    refine mem_ids_filter.mpr ⟨hlive, ?_⟩
    rintro rfl
    have := (h.owner c hc sv).mp hid
    rw [hservice] at this
    cases this
  owner other hother := h.owner other (List.mem_of_mem_filter hother)
  inOrder := h.inOrder
  ids := map_id_nodup_filter h.ids _
  fresh other hother := h.fresh other (List.mem_of_mem_filter hother)
  services := h.services
  registered := h.registered
  channels := h.channels_filter _

theorem Sound.disconnect (h : m.Sound) (hc : c ∈ m.clients) : (m.qemud_client_disconnect c).Sound := by
  cases hservice : c.service with
  | none =>
    rw [disconnect_of_none hservice]
    exact h.unlist hc hservice
  | some sv =>
    have hlisted : c.id ∈ (m.service sv).clients := (h.owner c hc sv).mpr hservice
    have hremove : m.qemud_client_disconnect c =
        { m.unlist c with
          service := Function.update m.service sv
            { m.service sv with
              clients := (m.service sv).clients.erase c.id
              num_clients := (m.service sv).num_clients - 1 } } := by
      rw [disconnect_of_some hservice]
      exact if_pos hlisted
    rw [hremove]
    refine ⟨?_, fun other hother ↦ ?_, ?_, map_id_nodup_filter h.ids _,
      fun other hother ↦ h.fresh other (List.mem_of_mem_filter hother), h.services, fun other hother ↦ ?_,
      h.channels_filter _⟩
    · rw [clients_update]
      refine h.index.erase (fun other hother ↦ h.index.owner_unique other sv c.id hother hlisted)
        fun id hne hlive ↦ mem_ids_filter.mpr ⟨hlive, hne⟩
    · obtain ⟨hother, hne⟩ := List.mem_filter.mp hother
      have hne : other.id ≠ c.id := of_decide_eq_true hne
      refine forall_update (p := fun sv after ↦ other.id ∈ after.clients ↔ other.service = some sv) ?_
        fun sv _ ↦ h.owner other hother sv
      rw [List.mem_erase_of_ne hne]
      exact h.owner other hother sv
    · refine forall_update (p := fun _ ↦ QemudService.InOrder) ⟨?_, fun hmax ↦ ?_⟩ fun other _ ↦ h.inOrder other
      · have hpos : 0 < (m.service sv).clients.length := List.length_pos_of_mem hlisted
        have hcount := (h.inOrder sv).count
        rw [List.length_erase_of_mem hlisted]
        change (m.service sv).num_clients - 1 = _
        omega
      · have hlimit := (h.inOrder sv).limit hmax
        change (m.service sv).num_clients - 1 ≤ (m.service sv).max_clients
        omega
    · have hne : other ≠ sv := by
        rintro rfl
        exact absurd hlisted (h.registered other hother ▸ List.not_mem_nil)
      change (Function.update m.service sv _ other).clients = []
      rw [Function.update_of_ne hne]
      exact h.registered other hother

/-- Clients go one by one. -/
theorem Sound.foldl_disconnect (h : m.Sound) {gone : List ListedClient} (hgone : ∀ c ∈ gone, c ∈ m.clients)
    (hids : (gone.map ListedClient.id).Nodup) :
    (gone.foldl qemud_client_disconnect m).Sound ∧ m.SameLimits (gone.foldl qemud_client_disconnect m) ∧
      (gone.foldl qemud_client_disconnect m).clients = m.clients.filter fun c ↦ c.id ∉ gone.map ListedClient.id := by
  induction gone generalizing m with
  | nil => exact ⟨h, .refl m, by simp⟩
  | cons c gone ih =>
    obtain ⟨hnot, hids⟩ := List.nodup_cons.mp hids
    have hstill : ∀ other ∈ gone, other ∈ (m.qemud_client_disconnect c).clients := by
      intro other hother
      rw [clients_disconnect]
      refine List.mem_filter.mpr ⟨hgone other (.tail c hother), decide_eq_true ?_⟩
      intro hid
      exact hnot (List.mem_map.mpr ⟨other, hother, hid⟩)
    obtain ⟨hsound, hsame, hclients⟩ := ih (h.disconnect (hgone c (.head gone))) hstill hids
    refine ⟨hsound, (sameLimits_disconnect m c).trans hsame, ?_⟩
    rw [List.foldl_cons, hclients, clients_disconnect, List.filter_filter]
    refine List.filter_congr fun other _ ↦ ?_
    simp only [List.map_cons, List.mem_cons, not_or, ne_eq, Bool.decide_and, Bool.and_comm]

/-- Pipe clients and the client of the control channel stay. -/
theorem Sound.disconnect_noncontrol (h : m.Sound) :
    m.qemud_multiplexer_disconnect_noncontrol.Sound ∧ m.SameLimits m.qemud_multiplexer_disconnect_noncontrol ∧
      m.qemud_multiplexer_disconnect_noncontrol.clients = m.clients.filter fun c ↦ !c.isNonControl := by
  obtain ⟨hsound, hsame, hclients⟩ := h.foldl_disconnect (fun c ↦ List.mem_of_mem_filter)
    (map_id_nodup_filter h.ids ListedClient.isNonControl)
  refine ⟨hsound, hsame, hclients.trans (List.filter_congr fun c hc ↦ ?_)⟩
  rw [Bool.eq_iff_iff, decide_eq_true_iff, Bool.not_eq_true', ← Bool.not_eq_true, not_iff_not]
  constructor
  · intro hmem
    obtain ⟨other, hother, hid⟩ := List.mem_map.mp hmem
    obtain ⟨hother, hnonControl⟩ := List.mem_filter.mp hother
    rwa [eq_of_id_eq h.ids hc hother hid.symm]
  · exact fun hnonControl ↦ List.mem_map_of_mem (List.mem_filter.mpr ⟨hc, hnonControl⟩)

/-- What a service lists is on the list of the multiplexer under its name. -/
theorem Sound.length_clients (h : m.Sound) (sv : ℕ) :
    (m.service sv).clients.length = m.clients.countP fun c ↦ c.service = some sv := by
  have hperm : (m.service sv).clients.Perm
      ((m.clients.filter fun c ↦ c.service = some sv).map ListedClient.id) := by
    refine (List.perm_ext_iff_of_nodup (h.index.nodup sv) (map_id_nodup_filter h.ids _)).mpr fun id ↦ ?_
    simp only [List.mem_map, List.mem_filter, decide_eq_true_eq]
    constructor
    · intro hid
      obtain ⟨c, hc, rfl⟩ := List.mem_map.mp (h.index.live_of_mem sv id hid)
      exact ⟨c, ⟨hc, (h.owner c hc sv).mp hid⟩, rfl⟩
    · rintro ⟨c, ⟨hc, hservice⟩, rfl⟩
      exact (h.owner c hc sv).mpr hservice
  rw [hperm.length_eq, List.length_map, List.countP_eq_length_filter]

/-! ## What a load gets to -/

/-- The services that are told anew, with their new limits. -/
def reachedServices (m : QemudMultiplexer) : List SavedService → List (ℕ × ℤ)
  | [] => []
  | saved :: rest =>
    match m.qemud_service_find saved.name with
    | none => []
    | some sv => (sv, saved.max_clients) :: if saved.loads then reachedServices m rest else []

/-- The services and the channels of the clients that are connected. -/
def reachedClients (m : QemudMultiplexer) : List SavedClient → List (ℕ × ℤ)
  | [] => []
  | saved :: rest =>
    match m.qemud_service_find saved.name with
    | none => []
    | some sv =>
      if saved.channel = 0 ∨ ¬ saved.accepts then []
      else (sv, saved.channel) :: if saved.loads then reachedClients m rest else []

/-- All services load, so that the clients are loaded, too. -/
def ServicesLoad (m : QemudMultiplexer) (services : List SavedService) : Prop :=
  ∀ saved ∈ services, (m.qemud_service_find saved.name).isSome ∧ saved.loads

def resetService (m : QemudMultiplexer) (reset : ℕ × ℤ) : QemudMultiplexer :=
  { m with
    service := Function.update m.service reset.1
      { m.service reset.1 with max_clients := reset.2, num_clients := 0 } }

/-- The limits once the services are loaded. -/
def limitsAfter (m : QemudMultiplexer) (resets : List (ℕ × ℤ)) : ℕ → ℤ :=
  resets.foldl (fun limit reset ↦ Function.update limit reset.1 reset.2) fun sv ↦ (m.service sv).max_clients

theorem sameServices_resetService (m : QemudMultiplexer) (reset : ℕ × ℤ) : m.SameServices (m.resetService reset) :=
  ⟨rfl, forall_update (p := fun other after ↦ after.name = (m.service other).name) rfl fun _ _ ↦ rfl⟩

theorem load_services_eq (services : List SavedService) (h : base.SameServices m) :
    (m.qemud_load_services services).2 = (base.reachedServices services).foldl resetService m := by
  induction services generalizing m with
  | nil => rfl
  | cons saved rest ih =>
    unfold qemud_load_services qemud_service_load reachedServices
    rw [h.find_eq]
    cases base.qemud_service_find saved.name with
    | none => rfl
    | some sv =>
      cases saved.loads with
      | true => exact ih (h.trans (sameServices_resetService m (sv, saved.max_clients)))
      | false => rfl

theorem load_services_succeeds (services : List SavedService) (h : base.SameServices m) :
    (m.qemud_load_services services).1 = 0 ↔ base.ServicesLoad services := by
  unfold ServicesLoad
  induction services generalizing m with
  | nil => simp [qemud_load_services]
  | cons saved rest ih =>
    unfold qemud_load_services qemud_service_load
    rw [h.find_eq, List.forall_mem_cons]
    cases base.qemud_service_find saved.name with
    | none => simp [ EIO]
    | some sv =>
      cases saved.loads with
      | true =>
        refine (ih (h.trans (sameServices_resetService m (sv, saved.max_clients)))).trans ?_
        simp
      | false => simp [ EIO]

theorem loadClients_eq (clients : List SavedClient) (h : base.SameServices m) : (loadClients m clients).2 =
      (base.reachedClients clients).foldl (fun m client ↦ m.qemud_client_new client.1 client.2) m := by
  induction clients generalizing m with
  | nil => rfl
  | cons saved rest ih =>
    unfold loadClients qemud_serial_client_load reachedClients qemud_service_connect_client
    rw [h.find_eq]
    cases base.qemud_service_find saved.name with
    | none => rfl
    | some sv =>
      by_cases hzero : saved.channel = 0
      · simp only [hzero, if_true, true_or]
        rfl
      · simp only [hzero, if_false, false_or]
        cases saved.accepts with
        | false => rfl
        | true =>
          cases saved.loads with
          | false => rfl
          | true => exact ih (h.trans (sameServices_client_new m sv saved.channel))

theorem Sound.foldl_reset (h : m.Sound) {resets : List (ℕ × ℤ)}
    (hempty : ∀ reset ∈ resets, (m.service reset.1).clients = []) :
    (resets.foldl resetService m).Sound ∧ m.SameServices (resets.foldl resetService m) ∧
      (resets.foldl resetService m).clients = m.clients ∧
        ∀ sv, ((resets.foldl resetService m).service sv).max_clients = m.limitsAfter resets sv := by
  induction resets generalizing m with
  | nil => exact ⟨h, .refl m, rfl, fun _ ↦ rfl⟩
  | cons reset resets ih =>
    have hthis : (m.service reset.1).clients = [] := hempty reset (.head resets)
    have hreset : (m.resetService reset).Sound := by
      have := h.reset hthis (m.service reset.1).name reset.2
      rwa [← hthis] at this
    have hclients : ∀ sv, ((m.resetService reset).service sv).clients = (m.service sv).clients :=
      forall_update (p := fun sv after ↦ after.clients = (m.service sv).clients) rfl fun _ _ ↦ rfl
    obtain ⟨hsound, hsame, hlist, hmax⟩ := ih hreset fun other hother ↦
      (hclients other.1).trans (hempty other (.tail reset hother))
    refine ⟨hsound, (sameServices_resetService m reset).trans hsame, hlist, fun sv ↦ (hmax sv).trans ?_⟩
    have hlimits : (fun sv ↦ ((m.resetService reset).service sv).max_clients) =
        Function.update (fun sv ↦ (m.service sv).max_clients) reset.1 reset.2 :=
      funext fun sv ↦ Function.apply_update (fun _ ↦ QemudService.max_clients) m.service reset.1 _ sv
    unfold limitsAfter
    rw [hlimits, List.foldl_cons]

/-- Clients come one by one, every one to a service with room and on a channel of its own. -/
theorem Sound.foldl_client_new (h : m.Sound) {new : List (ℕ × ℤ)} (hlt : ∀ client ∈ new, client.1 < m.services.length)
    (hroom : ∀ client ∈ new, 0 < (m.service client.1).max_clients →
      (m.service client.1).num_clients + new.countP (fun other ↦ other.1 = client.1) ≤
        (m.service client.1).max_clients)
    (hfree : ∀ client ∈ new, 0 ≤ client.2 → client.2 ∉ m.channels)
    (hdistinct : new.Pairwise fun client other ↦ client.2 < 0 ∨ client.2 ≠ other.2) :
    (new.foldl (fun m client ↦ m.qemud_client_new client.1 client.2) m).Sound := by
  induction new generalizing m with
  | nil => exact h
  | cons client new ih =>
    have hthis : m.HasRoom client.1 := by
      intro hmax
      have hcount := hroom client (.head new) hmax
      rw [List.countP_cons_of_pos (by simp)] at hcount
      omega
    refine ih (h.client_new (hlt client (.head new)) hthis (hfree client (.head new)))
      (fun other hother ↦ hlt other (.tail client hother)) (fun other hother ↦ ?_) (fun other hother hnonneg ↦ ?_)
      (List.Pairwise.of_cons hdistinct)
    · rw [max_clients_client_new, num_clients_client_new]
      intro hmax
      have hcount := hroom other (.tail client hother) hmax
      rw [List.countP_cons] at hcount
      simp only [decide_eq_true_eq, eq_comm (a := client.1)] at hcount
      split_ifs at hcount ⊢ <;> omega
    · have hold : other.2 ∉ m.channels := hfree other (.tail client hother) hnonneg
      rw [channels_client_new]
      split_ifs with hchannel
      · exact hold
      · have hne : client.2 ≠ other.2 := (List.rel_of_pairwise_cons hdistinct hother).resolve_left hchannel
        exact List.not_mem_cons_of_ne_of_not_mem hne.symm hold

theorem mem_reachedClients {client : ℕ × ℤ} (h : client ∈ m.reachedClients clients) :
    client.2 ≠ 0 ∧ ∃ name, m.qemud_service_find name = some client.1 := by
  induction clients with
  | nil => cases h
  | cons saved rest ih =>
    unfold reachedClients at h
    cases hfind : m.qemud_service_find saved.name with
    | none =>
      rw [hfind] at h
      cases h
    | some sv =>
      rw [hfind] at h
      dsimp only at h
      split_ifs at h with hrefused hloads
      · cases h
      · obtain rfl | h := List.mem_cons.mp h
        · exact ⟨fun hzero ↦ hrefused (.inl hzero), saved.name, hfind⟩
        · exact ih h
      · obtain rfl := List.mem_singleton.mp h
        exact ⟨fun hzero ↦ hrefused (.inl hzero), saved.name, hfind⟩

/-! ## Runs -/

/-- The clients of a service that a load leaves alone. -/
def staying (m : QemudMultiplexer) (sv : ℕ) : ℕ := m.clients.countP fun c ↦ !c.isNonControl ∧ c.service = some sv

/-- Services are loaded without clients, and the clients that are loaded find room and channels of their own. -/
structure Loadable (m : QemudMultiplexer) (services : List SavedService) (clients : List SavedClient) : Prop where
  empty : ∀ reset ∈ m.reachedServices services, (m.service reset.1).clients = []
  room : m.ServicesLoad services → ∀ client ∈ m.reachedClients clients,
    0 < m.limitsAfter (m.reachedServices services) client.1 →
      (m.staying client.1 + (m.reachedClients clients).countP fun other ↦ other.1 = client.1 : ℤ) ≤
        m.limitsAfter (m.reachedServices services) client.1
  distinct : m.ServicesLoad services →
    (m.reachedClients clients).Pairwise fun client other ↦ client.2 < 0 ∨ client.2 ≠ other.2

instance decidableServicesLoad (services : List SavedService) : Decidable (m.ServicesLoad services) := by
  unfold ServicesLoad
  infer_instance

instance decidableLoadable (services : List SavedService) (clients : List SavedClient) :
    Decidable (m.Loadable services clients) :=
  decidable_of_iff (_ ∧ _ ∧ _) ⟨fun ⟨empty, room, distinct⟩ ↦ ⟨empty, room, distinct⟩,
    fun ⟨empty, room, distinct⟩ ↦ ⟨empty, room, distinct⟩⟩

/-- A connection to a service with room is on a channel that is free. -/
def CommandKeepsBooks (m : QemudMultiplexer) : Command → Prop
  | .connect service_name channel =>
    ∀ sv ∈ m.qemud_service_find service_name, m.HasRoom sv → channel ∉ m.channels
  | .disconnect _ => True

instance decidableCommandKeepsBooks : ∀ asked, Decidable (m.CommandKeepsBooks asked)
  | .connect _ _ => inferInstanceAs (Decidable (∀ _ ∈ _, _ → _))
  | .disconnect _ => isTrue trivial

/-- The condition under which a step keeps the books. -/
def KeepsBooks : MultiplexerLabel → QemudMultiplexer → Prop
  | .control msg true, m => ∀ asked ∈ command msg, m.CommandKeepsBooks asked
  | .pipe service_name true, m => ∀ sv ∈ m.qemud_service_find service_name, m.HasRoom sv
  | .load true services clients, m => m.Loadable services clients
  | _, _ => True

instance decidableKeepsBooks : ∀ label m, Decidable (KeepsBooks label m)
  | .register _ _, _ | .close _, _ | .closeFromGuest _, _ => isTrue trivial
  | .control _ false, _ | .pipe _ false, _ | .load false _ _, _ => isTrue trivial
  | .control _ true, _ => inferInstanceAs (Decidable (∀ _ ∈ _, _))
  | .pipe _ true, _ => inferInstanceAs (Decidable (∀ _ ∈ _, _))
  | .load true _ _, _ => decidableLoadable _ _

/-- What is to hold of the clients. -/
structure BooksRight (m : QemudMultiplexer) : Prop where
  inOrder : ∀ sv, (m.service sv).InOrder
  channels : m.channels.Nodup
  listed : ∀ sv, ∀ id ∈ (m.service sv).clients, id ∈ m.clients.map ListedClient.id

theorem Sound.booksRight (h : m.Sound) : m.BooksRight := ⟨h.inOrder, h.channels, h.index.live_of_mem⟩

/-- The services are loaded, and the old clients go before the new ones come. -/
theorem Sound.load_clients {loaded : QemudMultiplexer} (h : loaded.Sound) (hsame : m.SameServices loaded)
    (hlist : loaded.clients = m.clients)
    (hroom : ∀ client ∈ m.reachedClients clients, 0 < (loaded.service client.1).max_clients → (m.staying client.1 + (m.reachedClients clients).countP fun other ↦ other.1 = client.1 : ℤ) ≤ (loaded.service client.1).max_clients)
    (hdistinct : (m.reachedClients clients).Pairwise fun client other ↦ client.2 < 0 ∨ client.2 ≠ other.2) :
    (loaded.qemud_load_clients clients).2.Sound := by
  obtain ⟨hsound, hsameLimits, hclients⟩ := h.disconnect_noncontrol
  unfold qemud_load_clients
  rw [loadClients_eq m clients (hsame.trans hsameLimits.toSameServices)]
  refine hsound.foldl_client_new (fun client hclient ↦ ?_) (fun client hclient ↦ ?_)
    (fun client hclient hnonneg hused ↦ ?_) hdistinct
  · obtain ⟨-, name, hfind⟩ := mem_reachedClients hclient
    rw [← hsame.find_eq, ← hsameLimits.find_eq] at hfind
    exact hsound.lt_of_find hfind
  · have hstaying : (loaded.qemud_multiplexer_disconnect_noncontrol.service client.1).num_clients =
        m.staying client.1 := by
      rw [(hsound.inOrder client.1).count, hsound.length_clients, hclients, hlist, List.countP_filter]
      simp only [staying, Bool.decide_and, Bool.and_comm, Bool.decide_eq_true]
    rw [hsameLimits.max_clients, hstaying]
    exact hroom client hclient
  · obtain ⟨hne, -⟩ := mem_reachedClients hclient
    obtain ⟨c, hc, hchannel⟩ := List.mem_filterMap.mp hused
    rw [hclients] at hc
    have hcontrol := (List.mem_filter.mp hc).2
    unfold ListedClient.channel at hchannel
    unfold ListedClient.isNonControl at hcontrol
    cases hprotocol : c.protocol with
    | pipe =>
      rw [hprotocol] at hchannel
      cases hchannel
    | serial channel =>
      rw [hprotocol] at hchannel hcontrol
      cases hchannel
      have hpos : 0 < client.2 := by omega
      simp [hpos] at hcontrol

section

variable (h : m.Sound)
include h

theorem Sound.load {services : List SavedService} (hload : m.Loadable services clients) :
    (m.qemud_multiplexer_load true services clients).2.Sound := by
  unfold qemud_multiplexer_load
  rw [if_pos rfl]
  have hservices := load_services_eq m services (.refl m)
  have hsucceeds := load_services_succeeds m services (.refl m)
  obtain ⟨hsound, hsame, hlist, hmax⟩ := h.foldl_reset hload.empty
  rw [← hservices] at hsound hsame hlist hmax
  cases hresult : m.qemud_load_services services with
  | mk ret loaded =>
    rw [hresult] at hsound hsame hlist hmax hsucceeds
    dsimp only at hsound hsame hlist hmax hsucceeds ⊢
    split_ifs with hret
    · have hload' := hsucceeds.mp hret
      refine hsound.load_clients hsame hlist ?_ (hload.distinct hload')
      simp only [hmax]
      exact hload.room hload'
    · exact hsound

theorem Sound.connect {service_name : List UInt8} {channel : ℤ}
    (hfree : accepts = true → ∀ sv ∈ m.qemud_service_find service_name, m.HasRoom sv → channel ∉ m.channels) :
    (m.qemud_multiplexer_connect service_name channel accepts).2.Sound := by
  unfold qemud_multiplexer_connect qemud_service_connect_client
  cases hfind : m.qemud_service_find service_name with
  | none => exact h
  | some sv =>
    dsimp only
    split_ifs with hfull haccepts
    · exact h
    · have hroom : m.HasRoom sv := fun hmax ↦ not_le.mp fun hge ↦ hfull ⟨hmax, hge⟩
      exact h.client_new (h.lt_of_find hfind) hroom fun _ ↦ hfree haccepts sv hfind hroom
    · exact h

theorem Sound.control_recv {msg : List UInt8} (hkeeps : KeepsBooks (.control msg accepts) m) :
    (m.qemud_multiplexer_control_recv msg accepts).Sound := by
  unfold qemud_multiplexer_control_recv
  cases hcommand : command msg with
  | none => exact h
  | some asked =>
    cases asked with
    | connect service_name channel =>
      refine h.connect ?_
      rintro rfl
      exact hkeeps _ hcommand
    | disconnect channel =>
      dsimp only
      unfold qemud_multiplexer_disconnect
      split
      · exact h
      · exact h.disconnect (List.mem_of_find?_eq_some ‹_›)

theorem Sound.pipe_connect {service_name : List UInt8} (hkeeps : KeepsBooks (.pipe service_name accepts) m) :
    (m.qemudPipe_connect service_name accepts).Sound := by
  unfold qemudPipe_connect qemud_service_connect_client
  cases hfind : m.qemud_service_find service_name with
  | none => exact h
  | some sv =>
    cases accepts with
    | false => exact h
    | true => exact h.client_new (h.lt_of_find hfind) (hkeeps sv hfind) fun hnonneg ↦ absurd hnonneg (by decide)

theorem Sound.close (id : ℕ) : (m.qemud_client_close id).Sound := by
  unfold qemud_client_close
  split
  · exact h
  · split_ifs
    · exact h
    · exact h.disconnect (List.mem_of_find?_eq_some ‹_›)

theorem Sound.closeFromGuest (id : ℕ) : (m.qemudPipe_closeFromGuest id).Sound := by
  unfold qemudPipe_closeFromGuest
  split
  · exact h
  · exact h.disconnect (List.mem_of_find?_eq_some ‹_›)

theorem Sound.step {label : MultiplexerLabel} (hkeeps : KeepsBooks label m) {next : QemudMultiplexer}
    (hstep : multiplexerStep label m = some next) : next.Sound := by
  cases label with
  | register name max_clients => exact Option.some.inj hstep ▸ h.register name max_clients
  | control msg accepts => exact Option.some.inj hstep ▸ h.control_recv hkeeps
  | pipe service_name accepts => exact Option.some.inj hstep ▸ h.pipe_connect hkeeps
  | close id => exact Option.some.inj hstep ▸ h.close id
  | closeFromGuest id => exact Option.some.inj hstep ▸ h.closeFromGuest id
  | load serialLoads services clients =>
    cases hstep
    cases serialLoads with
    | false => exact h
    | true => exact h.load hkeeps

end

/-- In a run of steps that keep the books, the books are right. -/
theorem booksRight_of_keepsBooks (labels : List MultiplexerLabel) {last : QemudMultiplexer}
    (hkeeps : Guarded multiplexerStep KeepsBooks init labels) (hrun : run multiplexerStep init labels = some last) :
    last.BooksRight :=
  Sound.booksRight <| invariant_of_guarded Sound (fun _ _ _ hsound hkeeps hstep ↦ hsound.step hkeeps hstep)
    sound_init hkeeps hrun

/-- `connect:a:01` -/
def connectMessage : List UInt8 := connectBytes ++ [97, 58, 48, 49]

/-- `disconnect:01` -/
def disconnectMessage : List UInt8 := disconnectBytes ++ [48, 49]

/-- A pipe and a channel are connected, both are closed again, and the service is loaded with one client. -/
def busyRun : List MultiplexerLabel :=
  [.register [97] 2, .control connectMessage true, .pipe [97] true, .pipe [98] true,
    .control disconnectMessage true, .closeFromGuest 2, .load true [⟨[97], 1, true⟩] [⟨[97], 1, true, true⟩]]

theorem booksRight_busyRun :
    ∃ last, run multiplexerStep init busyRun = some last ∧ last.clients.map ListedClient.id = [3, 0] ∧
      last.BooksRight :=
  ⟨_, rfl, by decide, booksRight_of_keepsBooks busyRun (by decide) rfl⟩

/-- A client is connected, saved and loaded again: the service has one client and counts none. -/
theorem count_after_load :
    ∃ saved last, run multiplexerStep init [.register [97] 0, .control connectMessage true] = some saved ∧
      multiplexerStep (.load true saved.savedServices saved.savedClients) saved = some last ∧
        (last.service 0).num_clients = 0 ∧ (last.service 0).clients = [2] ∧ ¬ last.BooksRight := by
  refine ⟨_, _, rfl, rfl, by decide, by decide, fun h ↦ ?_⟩
  exact absurd (h.inOrder 0).count (by decide)

end QemudMultiplexer

end FdeEmugl.Qemud
