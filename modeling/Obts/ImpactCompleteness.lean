import Obts.DashboardImpacts

/-!
# Which differences of a dashboard are noticed

A response is made of the compared signatures and of data that none of them covers: what the devices can store,
why a removal failed, what is derived from the times of the heartbeats, the order of the rows and the latest
events. Two states whose signatures agree have the same response exactly if they agree on that data.
-/
namespace ImpactCompleteness

open InsertionOrder DashboardResponse DashboardImpacts List
open Option (map_eq_some_iff map_some)

structure UnlistedDevice where
  deviceId : String
  (offline statusReportFresh : Bool)
  statusReportAgeSeconds : Option Int
  /-- Where the report is fresh. -/
  pathCapabilities : Option PathCapabilities
  /-- The error of the device's removal, if it is being removed. -/
  removalError : Option (Option String)

structure Unlisted where
  devices : List UnlistedDevice
  /-- The devices with restricted names and their platforms, where the response lists them. -/
  restrictedDevices : Option (List (String × String))
  /-- The conflicts in their order, with the names of their devices. -/
  conflicts : List (String × String)
  recentActivity : List Activity

section Unlisted

variable (host : Host) (git : Git)

def unlistedDevice (jobs : List DeviceRemovalJob) (device : DeviceRow) : UnlistedDevice where
  deviceId := device.deviceId
  offline := isOffline host device.lastSeenAt
  statusReportFresh := isFreshDeviceStatus host device.lastStatusReportAt
  statusReportAgeSeconds := reportAgeSeconds host device.lastStatusReportAt
  pathCapabilities :=
    if isFreshDeviceStatus host device.lastStatusReportAt then safePathCapabilities device.pathCapabilities else none
  removalError := (jobs.find? fun job => job.deviceId = device.deviceId).map (·.errorCode)

/-- The devices that the user is shown. -/
def shownDevices (userId : String) (view : Scoped) : List DeviceRow :=
  view.devices.filter fun device => device.userId = userId

def restrictedPlatform (device : DeviceRow) : Option (String × String) :=
  if isDeviceRevoked device then none
  else (restrictedNamePlatform device).map fun platform => (device.deviceId, platform)

def unlisted (userId : String) (view : Scoped) : Unlisted where
  devices := (shownDevices userId view).map (unlistedDevice host view.deviceRemovalJobs)
  restrictedDevices := (unportablePathCount host git view.vault.currentMain
      ((view.directory.map (·.explicitDirs)).getD [])).map fun _ =>
    (shownDevices userId view).filterMap restrictedPlatform
  conflicts := (buildDashboardConflicts host git view.devices view.directory view.vault view.conflicts).map
    fun summary =>
    (summary.conflict.conflictId, summary.deviceName)
  recentActivity := buildRecentActivity view.events view.vault.vaultId

end Unlisted

section Lists

variable {α β γ : Type} {xs ys : List α}

/-- Lists agree entry by entry in what is determined by a key on which they agree. -/
lemma map_eq_of_map_eq {key key' : α → β} {f g : α → γ} (h : xs.map key = ys.map key')
    (hkey : ∀ x ∈ xs, ∀ y ∈ ys, key x = key' y → f x = g y) : xs.map f = ys.map g := by
  induction xs generalizing ys with
  | nil =>
    rw [map_eq_nil_iff.mp h.symm]
    rfl
  | cons x xs ih =>
    cases ys with
    | nil => cases h
    | cons y ys =>
      rw [map_cons, map_cons, List.cons.injEq] at h
      have hhead := hkey x mem_cons_self y mem_cons_self h.1
      have htail := ih h.2 fun x' hx' y' hy' => hkey x' (mem_cons_of_mem _ hx') y' (mem_cons_of_mem _ hy')
      rw [map_cons, map_cons, hhead, htail]

lemma eq_of_map_eq {key : α → β} (h : xs.map key = ys.map key)
    (hkey : ∀ x ∈ xs, ∀ y ∈ ys, key x = key y → x = y) : xs = ys := by
  rw [← map_id xs, ← map_id ys]
  exact map_eq_of_map_eq h hkey

end Lists

/-- The signatures of two views of a vault agree. -/
structure SameSignatures (x y : Scoped) : Prop where
  vault : vaultSignature x.vault = vaultSignature y.vault
  devices : ∀ d ∈ x.devices, ∀ e ∈ y.devices, d.deviceId = e.deviceId → deviceSignature d = deviceSignature e
  jobs : ∀ d ∈ x.deviceRemovalJobs, ∀ e ∈ y.deviceRemovalJobs, d.deviceId = e.deviceId →
    removalSignature d = removalSignature e
  conflicts : ∀ d ∈ x.conflicts, ∀ e ∈ y.conflicts, d.conflictId = e.conflictId → d = e
  directory : x.directory = y.directory

section Responses

variable {host : Host} {git : Git} {userId : String} {x y : Scoped} {d e : DeviceRow}

lemma SameSignatures.currentMain (h : SameSignatures x y) : x.vault.currentMain = y.vault.currentMain :=
  show (vaultSignature x.vault).currentMain = (vaultSignature y.vault).currentMain from
    congrArg VaultRow.currentMain h.vault

/-- The summary of a removal is made of its signature and its error. -/
lemma removalSummary_congr (h : SameSignatures x y) (deviceId : String)
    (herror : (x.deviceRemovalJobs.find? fun job => job.deviceId = deviceId).map (·.errorCode)
      = (y.deviceRemovalJobs.find? fun job => job.deviceId = deviceId).map (·.errorCode)) :
    removalSummary (x.deviceRemovalJobs.find? fun job => job.deviceId = deviceId)
      = removalSummary (y.deviceRemovalJobs.find? fun job => job.deviceId = deviceId) := by
  cases hjob : x.deviceRemovalJobs.find? fun job => job.deviceId = deviceId with
  | none =>
    rw [hjob, Option.map_none, eq_comm, Option.map_eq_none_iff] at herror
    rw [herror]
  | some job =>
    rw [hjob, map_some, eq_comm, map_eq_some_iff] at herror
    obtain ⟨other, hother, herror⟩ := herror
    have hid : job.deviceId = deviceId := by simpa using List.find?_some hjob
    have hoid : other.deviceId = deviceId := by simpa using List.find?_some hother
    have hsign := h.jobs job (mem_of_find?_eq_some hjob) other (mem_of_find?_eq_some hother) (hid.trans hoid.symm)
    obtain ⟨-, hrest⟩ := Prod.mk.inj hsign
    obtain ⟨hstate, hretr⟩ := Prod.mk.inj hrest
    rw [hother, removalSummary, removalSummary, map_some, map_some, hstate, hretr, herror]

/-- The summary of a device is made of its signature and its unlisted data. -/
lemma deviceSummary_congr (h : SameSignatures x y) (hd : d ∈ x.devices) (he : e ∈ y.devices)
    (hunl : unlistedDevice host x.deviceRemovalJobs d = unlistedDevice host y.deviceRemovalJobs e) :
    deviceSummary host git x.vault x.deviceRemovalJobs d = deviceSummary host git y.vault y.deviceRemovalJobs e := by
  have hid : d.deviceId = e.deviceId := congrArg UnlistedDevice.deviceId hunl
  have hoffl : isOffline host d.lastSeenAt = isOffline host e.lastSeenAt :=
    congrArg UnlistedDevice.offline hunl
  have hfresh : isFreshDeviceStatus host d.lastStatusReportAt = isFreshDeviceStatus host e.lastStatusReportAt :=
    congrArg UnlistedDevice.statusReportFresh hunl
  have hage : reportAgeSeconds host d.lastStatusReportAt = reportAgeSeconds host e.lastStatusReportAt :=
    congrArg UnlistedDevice.statusReportAgeSeconds hunl
  have hcap := congrArg UnlistedDevice.pathCapabilities hunl
  have herror := congrArg UnlistedDevice.removalError hunl
  simp only [unlistedDevice, hfresh] at hcap
  simp only [unlistedDevice, hid] at herror
  have hrem := removalSummary_congr h e.deviceId herror
  have hsign := h.devices d hd e he hid
  simp only [deviceSignature, DeviceSignature.mk.injEq] at hsign
  obtain ⟨hname, hstat, hrvk, hhead, happl, hlabel, hcode, hqueue, hmain, hlocH, hvers, -⟩ := hsign
  have hisR : isDeviceRevoked d = isDeviceRevoked e := by rw [isDeviceRevoked, hrvk, hstat, isDeviceRevoked]
  rw [deviceSummary, deviceSummary, hisR, hid, hoffl, hfresh, hage, hcap, hrem, hname, hstat,
    hrvk, hhead, happl, hlabel, hcode, hqueue, hmain, hlocH, hvers, h.currentMain]

/-- A device has one row in each list, so that lists that agree do so at every device. -/
lemma unlistedDevice_eq (hkeys : (y.devices.map (·.deviceId)).Nodup)
    (hlists : (unlisted host git userId x).devices = (unlisted host git userId y).devices)
    (hd : d ∈ shownDevices userId x) (he : e ∈ shownDevices userId y) (hid : d.deviceId = e.deviceId) :
    unlistedDevice host x.deviceRemovalJobs d = unlistedDevice host y.deviceRemovalJobs e := by
  have hmem : unlistedDevice host x.deviceRemovalJobs d ∈ (unlisted host git userId x).devices :=
    mem_map_of_mem hd
  rw [hlists] at hmem
  obtain ⟨other, hother, heq⟩ := mem_map.mp hmem
  have hoid : other.deviceId = d.deviceId := congrArg UnlistedDevice.deviceId heq
  have hsame : other = e :=
    inj_on_of_nodup_map hkeys (mem_of_mem_filter hother) (mem_of_mem_filter he) (hoid.trans hid)
  rw [← heq, hsame]

/-- Of a restricted device the entry adds the name and whether its report blocks it. -/
lemma restrictedDevice_congr (h : SameSignatures x y) (hd : d ∈ x.devices) (he : e ∈ y.devices)
    (hunl : unlistedDevice host x.deviceRemovalJobs d = unlistedDevice host y.deviceRemovalJobs e)
    {r s : RestrictedDevice} (hr : restrictedDevice host d = some r) (hs : restrictedDevice host e = some s)
    (hplat : r.platform = s.platform) : r = s := by
  have hid : d.deviceId = e.deviceId := congrArg UnlistedDevice.deviceId hunl
  have hfresh : isFreshDeviceStatus host d.lastStatusReportAt = isFreshDeviceStatus host e.lastStatusReportAt :=
    congrArg UnlistedDevice.statusReportFresh hunl
  have hsign := h.devices d hd e he hid
  have hname : d.deviceName = e.deviceName := congrArg DeviceSignature.deviceName hsign
  have hcode : d.localErrorCode = e.localErrorCode := congrArg DeviceSignature.localErrorCode hsign
  rw [restrictedDevice] at hr hs
  split_ifs at hr hs
  obtain ⟨platform, -, rfl⟩ := map_eq_some_iff.mp hr
  obtain ⟨other, -, rfl⟩ := map_eq_some_iff.mp hs
  rw [RestrictedDevice.mk.injEq]
  refine ⟨hid, hname, hplat, ?_⟩
  rw [hfresh, hcode]

lemma deviceId_restrictedDevice {device : DeviceRow} {entry : RestrictedDevice}
    (h : restrictedDevice host device = some entry) : entry.deviceId = device.deviceId := by
  rw [restrictedDevice] at h
  split_ifs at h
  obtain ⟨platform, -, rfl⟩ := map_eq_some_iff.mp h
  rfl

lemma map_restrictedDevice (device : DeviceRow) :
    (restrictedDevice host device).map (fun entry => (entry.deviceId, entry.platform)) =
      restrictedPlatform device := by
  rw [restrictedDevice, restrictedPlatform]
  split_ifs
  · rfl
  · rw [Option.map_map]
    rfl

lemma map_restrictedDevices (devices : List DeviceRow) :
    (devices.filterMap (restrictedDevice host)).map (fun entry => (entry.deviceId, entry.platform))
      = devices.filterMap restrictedPlatform := by
  rw [map_filterMap]
  congr 1
  funext device
  exact map_restrictedDevice device

lemma restrictedDevices_congr (h : SameSignatures x y) (hkeys : (y.devices.map (·.deviceId)).Nodup)
    (hlists : (unlisted host git userId x).devices = (unlisted host git userId y).devices)
    (hplat : (shownDevices userId x).filterMap restrictedPlatform
      = (shownDevices userId y).filterMap restrictedPlatform) :
    (shownDevices userId x).filterMap (restrictedDevice host)
      = (shownDevices userId y).filterMap (restrictedDevice host) := by
  rw [← @map_restrictedDevices host, ← @map_restrictedDevices host] at hplat
  apply eq_of_map_eq hplat
  intro r hr s hs hkey
  obtain ⟨d, hd, hrd⟩ := mem_filterMap.mp hr
  obtain ⟨e, he, hse⟩ := mem_filterMap.mp hs
  obtain ⟨hid, hpla⟩ := Prod.mk.inj hkey
  have hde : d.deviceId = e.deviceId := by
    rw [← deviceId_restrictedDevice hrd, ← deviceId_restrictedDevice hse]
    exact hid
  exact restrictedDevice_congr h (mem_of_mem_filter hd) (mem_of_mem_filter he)
    (unlistedDevice_eq hkeys hlists hd he hde) hrd hse hpla

/-- The unlisted data can be read off the response. -/
lemma unlisted_of_respond (h : respond host git userId x = respond host git userId y) :
    unlisted host git userId x = unlisted host git userId y := by
  have hread : ∀ view : Scoped, unlisted host git userId view =
      { devices := (respond host git userId view).devices.map fun device =>
          ⟨device.deviceId, device.offline, device.statusReportFresh, device.statusReportAgeSeconds,
            device.pathCapabilities, device.removal.map (·.errorCode)⟩
        restrictedDevices := (respond host git userId view).namePortability.map fun names =>
          names.restrictedDevices.map fun entry => (entry.deviceId, entry.platform)
        conflicts := (respond host git userId view).conflicts.map fun summary =>
          (summary.conflict.conflictId, summary.deviceName)
        recentActivity := (respond host git userId view).recentActivity } := by
    intro view
    rw [unlisted, Unlisted.mk.injEq]
    refine ⟨?_, ?_, rfl, rfl⟩
    · simp only [respond, shownDevices, map_map]
      apply map_congr_left
      intro device _
      simp [unlistedDevice, deviceSummary, removalSummary, Function.comp_def]
    · simp [respond, Function.comp_def, map_restrictedDevices, shownDevices]
  rw [hread x, hread y, h]

lemma conflictSummary_congr (h : SameSignatures x y) (conflict : ConflictRecord)
    (hname : (conflictSummary git x.devices x.directory x.vault conflict).deviceName
      = (conflictSummary git y.devices y.directory y.vault conflict).deviceName) :
    conflictSummary git x.devices x.directory x.vault conflict
      = conflictSummary git y.devices y.directory y.vault conflict := by
  have hstale : isConflictReviewStale git x.directory x.vault conflict
      = isConflictReviewStale git y.directory y.vault conflict := by
    rw [isConflictReviewStale, isConflictReviewStale, h.directory, h.currentMain]
  simp only [conflictSummary] at hname
  simp [conflictSummary, hname, hstale]

lemma buildDashboardConflicts_congr (h : SameSignatures x y)
    (hconf : (unlisted host git userId x).conflicts = (unlisted host git userId y).conflicts) :
    buildDashboardConflicts host git x.devices x.directory x.vault x.conflicts
      = buildDashboardConflicts host git y.devices y.directory y.vault y.conflicts := by
  apply eq_of_map_eq hconf
  intro summary hsumm other hother hkey
  obtain ⟨conflict, hcon, rfl⟩ := mem_map.mp (mem_sortBy.mp hsumm)
  obtain ⟨otherConflict, hothC, rfl⟩ := mem_map.mp (mem_sortBy.mp hother)
  obtain ⟨hid, hname⟩ := Prod.mk.inj hkey
  obtain rfl := h.conflicts conflict hcon otherConflict hothC hid
  exact conflictSummary_congr h conflict hname

/-- The sorted conflicts are those of the vault. -/
lemma map_buildDashboardConflicts_perm (view : Scoped) :
    ((buildDashboardConflicts host git view.devices view.directory view.vault view.conflicts).map (·.conflict)).Perm
      view.conflicts := by
  have hsort := (sortBy_perm (compareConflicts host)
    (view.conflicts.map (conflictSummary git view.devices view.directory view.vault))).map (·.conflict)
  have hconf : (fun summary : ConflictSummary => summary.conflict) ∘
      conflictSummary git view.devices view.directory view.vault = id := rfl
  rwa [map_map, hconf, map_id] at hsort

/-- With the same signatures, the responses agree as soon as the unlisted data do. -/
lemma respond_congr (h : SameSignatures x y) (hkeys : (y.devices.map (·.deviceId)).Nodup)
    (hunl : unlisted host git userId x = unlisted host git userId y) :
    respond host git userId x = respond host git userId y := by
  have hlists := congrArg Unlisted.devices hunl
  have hdevs : (shownDevices userId x).map (deviceSummary host git x.vault x.deviceRemovalJobs)
      = (shownDevices userId y).map (deviceSummary host git y.vault y.deviceRemovalJobs) :=
    map_eq_of_map_eq hlists fun d hd e he heq =>
      deviceSummary_congr h (mem_of_mem_filter hd) (mem_of_mem_filter he) heq
  have hconf := buildDashboardConflicts_congr h (congrArg Unlisted.conflicts hunl)
  have hcount : (x.conflicts.filter fun conflict => conflict.status = .open).length
      = (y.conflicts.filter fun conflict => conflict.status = .open).length := by
    have hx := @map_buildDashboardConflicts_perm host git x
    rw [hconf] at hx
    exact ((hx.symm.trans (map_buildDashboardConflicts_perm y)).filter _).length_eq
  have hact : buildRecentActivity x.events x.vault.vaultId = buildRecentActivity y.events y.vault.vaultId :=
    congrArg Unlisted.recentActivity hunl
  have hnames : (respond host git userId x).namePortability = (respond host git userId y).namePortability := by
    have hrest := congrArg Unlisted.restrictedDevices hunl
    simp only [unlisted, h.currentMain, h.directory] at hrest
    simp only [respond, h.currentMain, h.directory]
    generalize unportablePathCount host git y.vault.currentMain ((y.directory.map (·.explicitDirs)).getD []) = known
      at hrest
    cases known with
    | none => rfl
    | some count =>
      have hplat := restrictedDevices_congr h hkeys hlists (Option.some.inj hrest)
      exact congrArg (fun restricted => some (NamePortability.mk count restricted)) hplat
  have hvault := h.vault
  simp only [vaultSignature, VaultRow.mk.injEq] at hvault
  obtain ⟨hid, -, hname, hstat, -, hmain, -⟩ := hvault
  rw [respond, respond, Response.mk.injEq]
  exact ⟨hid, hname, hmain, hstat, hdevs, hcount, hconf, hact, hnames⟩

end Responses

/-- The tables that the dashboard reads by identifiers have one row for each. -/
structure WellKeyed (db : MetadataDb) : Prop where
  vaults : (db.vaults.map (·.vaultId)).Nodup
  devices : (db.devices.map (·.deviceId)).Nodup
  deviceRemovalJobs : (db.deviceRemovalJobs.map (·.deviceId)).Nodup
  conflicts : (db.conflicts.map (·.conflictId)).Nodup

lemma signature_eq_of_not_differs {ρ σ : Type} {key : ρ → String} {signature : ρ → σ} {previous current : List ρ}
    {Interesting : ρ → Prop} (hprev : (previous.map key).Nodup) (hcur : (current.map key).Nodup)
    (hnot : ¬ Differs key signature previous current Interesting) {before row : ρ} (hbef : before ∈ previous)
    (hrow : row ∈ current) (hkey : key before = key row) (hinteresting : Interesting row) :
    signature before = signature row := by
  by_contra hne
  apply hnot
  refine .inl ⟨key row, row, (valueAt_mapBy hcur).mpr ⟨hrow, rfl⟩, ?_, hinteresting⟩
  rw [(valueAt_mapBy hprev).mpr ⟨hbef, hkey⟩, map_some, ne_eq, Option.some.injEq]
  exact hne

section States

variable {previous current : MetadataDb} {userId vaultId : String}

/-- What a request finds is the vault of the user with the rows of the vault. -/
lemma scope_spec {db : MetadataDb} {view : Scoped} (h : scope db userId vaultId = some view) :
    view.vault ∈ db.vaults ∧ view.vault.vaultId = vaultId ∧ view.vault.ownerUserId = userId ∧
      view.devices = (db.devices.filter fun device => device.vaultId = vaultId) ∧
      view.deviceRemovalJobs = (db.deviceRemovalJobs.filter fun job => job.vaultId = vaultId) ∧
      view.conflicts = (db.conflicts.filter fun conflict => conflict.vaultId = vaultId) ∧
      view.directory = valueAt db.directoryStateByVault vaultId := by
  obtain ⟨found, hfound, rfl⟩ := map_eq_some_iff.mp h
  have htest := List.find?_some hfound
  rw [Bool.and_eq_true, decide_eq_true_eq, decide_eq_true_eq] at htest
  obtain ⟨rfl, howner⟩ := htest
  exact ⟨mem_of_find?_eq_some hfound, rfl, howner, rfl, rfl, rfl, rfl⟩

/-- If nothing is noticed, the two views of a vault have the same signatures. -/
lemma sameSignatures_of_not_noticed (hprev : WellKeyed previous) (hcur : WellKeyed current)
    (hnot : ¬ Noticed previous current userId vaultId) {x y : Scoped} (hx : scope previous userId vaultId = some x)
    (hy : scope current userId vaultId = some y) : SameSignatures x y := by
  obtain ⟨hxva, hxid, -, hxdev, hxjobs, hxcon, hxdir⟩ := scope_spec hx
  obtain ⟨hyva, hyid, hyown, hydev, hyjobs, hycon, hydir⟩ := scope_spec hy
  have hxfo := (valueAt_mapBy hprev.vaults).mpr ⟨hxva, hxid⟩
  have hyfo := (valueAt_mapBy hcur.vaults).mpr ⟨hyva, hyid⟩
  have howned : Owned previous current userId vaultId vaultId := by
    refine ⟨rfl, ?_⟩
    rw [ownerOf, hyfo, Option.some_or, map_some, hyown]
  rw [Noticed, not_or, not_or, not_or, not_or, not_or, not_or] at hnot
  obtain ⟨hvs, hdevs, hjobs, hconf, -, hdirs, -⟩ := hnot
  constructor
  · by_contra hne
    apply hvs
    refine .inl ⟨vaultId, y.vault, hyfo, ?_⟩
    rw [hxfo]
    exact ⟨hne, .inl ⟨hyown, .inl rfl⟩⟩
  · intro d hd e he hid
    rw [hxdev, mem_filter] at hd
    rw [hydev, mem_filter, decide_eq_true_eq] at he
    refine signature_eq_of_not_differs hprev.devices hcur.devices hdevs hd.1 he.1 hid ?_
    rw [he.2]
    exact howned
  · intro d hd e he hid
    rw [hxjobs, mem_filter] at hd
    rw [hyjobs, mem_filter, decide_eq_true_eq] at he
    refine signature_eq_of_not_differs hprev.deviceRemovalJobs hcur.deviceRemovalJobs hjobs hd.1 he.1 hid ?_
    rw [he.2]
    exact howned
  · intro d hd e he hid
    rw [hxcon, mem_filter] at hd
    rw [hycon, mem_filter, decide_eq_true_eq] at he
    refine signature_eq_of_not_differs hprev.conflicts hcur.conflicts hconf hd.1 he.1 hid ?_
    rw [he.2]
    exact howned
  · by_contra hne
    rw [hxdir, hydir] at hne
    exact hdirs ⟨vaultId, hne, howned⟩

/-- A difference of the response is marked exactly if a compared signature differs too, or the difference is none
in the data that no signature covers. -/
theorem impact_complete_iff (hprevious : WellKeyed previous) (hcurrent : WellKeyed current) (host : Host) (git : Git)
    (watchedSessions : List String) :
    (dashboardResponse host git previous userId vaultId ≠ dashboardResponse host git current userId vaultId →
        marks userId vaultId (computeDashboardImpact previous current watchedSessions) = true) ↔
      Noticed previous current userId vaultId ∨ (scope previous userId vaultId).map (unlisted host git userId)
          = (scope current userId vaultId).map (unlisted host git userId) := by
  rw [marks_computeDashboardImpact, dashboardResponse, dashboardResponse]
  have hresp : ¬ Noticed previous current userId vaultId →
      ((scope previous userId vaultId).map (respond host git userId)
          = (scope current userId vaultId).map (respond host git userId) ↔
        (scope previous userId vaultId).map (unlisted host git userId)
          = (scope current userId vaultId).map (unlisted host git userId)) := by
    intro hnot
    cases hx : scope previous userId vaultId with
    | none => cases scope current userId vaultId <;> simp
    | some x =>
      cases hy : scope current userId vaultId with
      | none => simp
      | some y =>
        have hsame := sameSignatures_of_not_noticed hprevious hcurrent hnot hx hy
        have hkeys : (y.devices.map (·.deviceId)).Nodup := by
          obtain ⟨-, -, -, hydev, -⟩ := scope_spec hy
          rw [hydev]
          exact hcurrent.devices.sublist (filter_sublist.map _)
        simp only [map_some, Option.some.injEq]
        exact ⟨unlisted_of_respond, respond_congr hsame hkeys⟩
  constructor
  · intro hcpl
    by_cases hnoticed : Noticed previous current userId vaultId
    · exact .inl hnoticed
    refine .inr ((hresp hnoticed).mp ?_)
    by_contra hne
    exact hnoticed (hcpl hne)
  · rintro (hnoticed | hunl) hne
    · exact hnoticed
    · by_contra hnot
      exact hne ((hresp hnot).mpr hunl)

end States

def plainHost : Host where
  now := 0
  dateParse := fun _ => some 0
  localeCompare := fun _ _ => .eq
  tenths := fun completed total => completed * 10 / total
  folding := PortableNames.asciiCaseFolding

def emptyGit : Git where
  mergeBaseIsAncestor := fun _ _ => .notAncestor
  commitExists := fun _ => false
  changedPaths := fun _ _ => none
  mergeBase := fun _ _ => none
  treePaths := fun _ => none

def reportedDb (platform : String) : MetadataDb where
  vaults := [⟨"vault", "owner", "Notes", .active, none, "m1", none, "t", "t"⟩]
  devices := [{
    deviceId := "device"
    vaultId := "vault"
    userId := "owner"
    deviceName := "Phone"
    lastStatusReportAt := some "t"
    pathCapabilities := some [("platform", .string platform)] }]

lemma wellKeyed_reportedDb (platform : String) : WellKeyed (reportedDb platform) :=
  ⟨nodup_singleton _, nodup_singleton _, nodup_nil, nodup_nil⟩

theorem impact_complete_iff_platform : (dashboardResponse plainHost emptyGit (reportedDb "linux") "owner" "vault"
          ≠ dashboardResponse plainHost emptyGit (reportedDb "android") "owner" "vault" →
        marks "owner" "vault" (computeDashboardImpact (reportedDb "linux") (reportedDb "android") []) = true) ↔
      Noticed (reportedDb "linux") (reportedDb "android") "owner" "vault" ∨
        (scope (reportedDb "linux") "owner" "vault").map (unlisted plainHost emptyGit "owner")
          = (scope (reportedDb "android") "owner" "vault").map (unlisted plainHost emptyGit "owner") :=
  impact_complete_iff (wellKeyed_reportedDb _) (wellKeyed_reportedDb _) plainHost emptyGit []

/-- The dashboard shows the platform, and nothing is marked when it changes. -/
theorem platform_not_noticed :
    ¬ ∀ (host : Host) (git : Git) (previous current : MetadataDb) (userId vaultId : String)
      (watchedSessions : List String), WellKeyed previous → WellKeyed current →
      dashboardResponse host git previous userId vaultId ≠ dashboardResponse host git current userId vaultId →
      marks userId vaultId (computeDashboardImpact previous current watchedSessions) = true := by
  intro hclaim
  have hmarks := hclaim plainHost emptyGit (reportedDb "linux") (reportedDb "android") "owner" "vault" []
    (wellKeyed_reportedDb _) (wellKeyed_reportedDb _) ?_
  · revert hmarks
    decide
  intro hsame
  have hshown := congrArg (Option.map fun response => response.devices.map (·.pathCapabilities)) hsame
  revert hshown
  decide

end ImpactCompleteness
