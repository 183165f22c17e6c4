import KubeMapReduce.Promotion

/-!
# The configuration of the workers

An administrator posts a configuration with any subset of its fields. The API checks the fields
and sends all seven to the manager, the absent ones as zeros and empty texts, and the manager
writes all of them into the single row of SYSTEM_CONFIG. So a field that is not supplied is not
kept: a zero violates a CHECK of the table and the request fails, a blank text replaces the
stored one.

* `SystemConfigRow`: a row of the table, with the CHECKs as fields.
* `upsertSystemConfig_ok`, `getSystemConfig_upsert`: the upsert writes what it is given, or nothing.
* `workerConfig_partial_iff`: a valid request is a partial update exactly if it is complete.
-/

namespace KubeMapReduce

variable {parseQuantity : String → Bool}

/-! ## 1. The table -/

structure SystemConfigUpdate where
  maxConcurrentPods : Int
  cpuLimit : String
  memoryLimit : String
  workerReplicas : Int
  maxJobsPerNode : Int
  localityKey : String
  localityLabelSelector : String
deriving DecidableEq

/-- The row of SYSTEM_CONFIG. -/
structure SystemConfigRow extends SystemConfigUpdate where
  maxConcurrentPods_pos : 0 < maxConcurrentPods
  workerReplicas_pos : 0 < workerReplicas
  maxJobsPerNode_pos : 0 < maxJobsPerNode

/-- The row that the migrations leave. -/
def seedRow : SystemConfigRow where
  maxConcurrentPods := 16
  cpuLimit := "500m"
  memoryLimit := "512Mi"
  workerReplicas := 1
  maxJobsPerNode := 4
  localityKey := "topology.kubernetes.io/zone"
  localityLabelSelector := "app.kubernetes.io/name=minio"
  maxConcurrentPods_pos := by decide
  workerReplicas_pos := by decide
  maxJobsPerNode_pos := by decide

/-- What GetSystemConfig returns when the table has no row. -/
def defaultSystemConfig : SystemConfigUpdate where
  maxConcurrentPods := DefaultMaxConcurrentPods
  cpuLimit := "500m"
  memoryLimit := "1Gi"
  workerReplicas := 1
  maxJobsPerNode := 1
  localityKey := "topology.kubernetes.io/zone"
  localityLabelSelector := "app.kubernetes.io/name=minio"

def getSystemConfig (table : Option SystemConfigRow) : SystemConfigUpdate :=
  (table.map SystemConfigRow.toSystemConfigUpdate).getD defaultSystemConfig

inductive UpsertErr where
  | integerOutOfRange
  | checkViolation
deriving DecidableEq

/-- The values of the type INTEGER. -/
def fitsInteger (n : Int) : Bool := decide (-2147483648 ≤ n) && decide (n ≤ 2147483647)

namespace SystemConfigUpdate

def FitsColumns (req : SystemConfigUpdate) : Prop :=
  fitsInteger req.maxConcurrentPods = true ∧ fitsInteger req.workerReplicas = true ∧
    fitsInteger req.maxJobsPerNode = true

/-- The CHECK constraints. -/
def Checked (req : SystemConfigUpdate) : Prop :=
  0 < req.maxConcurrentPods ∧ 0 < req.workerReplicas ∧ 0 < req.maxJobsPerNode

instance (req : SystemConfigUpdate) : Decidable req.FitsColumns :=
  inferInstanceAs (Decidable (_ ∧ _ ∧ _))

instance (req : SystemConfigUpdate) : Decidable req.Checked :=
  inferInstanceAs (Decidable (_ ∧ _ ∧ _))

end SystemConfigUpdate

/-- QueryUpsertSystemConfig sets every column. A statement that fails leaves the table. -/
def upsertSystemConfig (req : SystemConfigUpdate) (table : Option SystemConfigRow) :
    Except UpsertErr Unit × Option SystemConfigRow :=
  if ¬ req.FitsColumns then (.error .integerOutOfRange, table) else
  if h : req.Checked then (.ok (), some ⟨req, h.1, h.2.1, h.2.2⟩)
  else (.error .checkViolation, table)

theorem upsertSystemConfig_ok {req : SystemConfigUpdate} {table : Option SystemConfigRow} :
    (upsertSystemConfig req table).1 = .ok () ↔ req.FitsColumns ∧ req.Checked := by
  unfold upsertSystemConfig
  split
  · next hfits => exact ⟨nofun, fun h => absurd h.1 hfits⟩
  · next hfits =>
    split
    · next hcheck => exact ⟨fun _ => ⟨not_not.mp hfits, hcheck⟩, fun _ => rfl⟩
    · next hcheck => exact ⟨nofun, fun h => absurd h.2 hcheck⟩

/-- An upsert that succeeds is what is read afterwards; one that fails changes nothing. -/
theorem getSystemConfig_upsert (req : SystemConfigUpdate) (table : Option SystemConfigRow) :
    getSystemConfig (upsertSystemConfig req table).2 =
      if req.FitsColumns ∧ req.Checked then req else getSystemConfig table := by
  unfold upsertSystemConfig
  split
  · next hfits => rw [if_neg fun h => hfits h.1]
  · next hfits =>
    split
    · next hcheck =>
      rw [if_pos ⟨not_not.mp hfits, hcheck⟩]
      rfl
    · next hcheck => rw [if_neg fun h => hcheck h.2]

/-- The defaults can be written. -/
theorem defaultSystemConfig_ok (table : Option SystemConfigRow) :
    (upsertSystemConfig defaultSystemConfig table).1 = .ok () :=
  upsertSystemConfig_ok.mpr (by decide)

/-! ## 2. The request -/

structure AdminWorkerConfigRequest where
  maxPods : Int
  cpuLimit : String
  memoryLimit : String
  workerReplicas : Int
  maxJobsPerNode : Int
  localityKey : String
  localityLabelSelector : String
deriving DecidableEq

variable {req : AdminWorkerConfigRequest}

def maxAdminPods : Int := 10000
def maxWorkerReplicas : Int := 1000
def maxJobsPerNode : Int := 1000

/-- The check of a number. -/
def checkRange (field : String) (value limit : Int) : Except String Unit :=
  if value < 0 then .error s!"{field} must be non-negative" else
  if value > limit then .error s!"{field} must be <= {limit}" else .ok ()

theorem checkRange_ok {field : String} {value limit : Int}
    (h : checkRange field value limit = .ok ()) : 0 ≤ value ∧ value ≤ limit := by
  unfold checkRange at h
  split at h
  · cases h
  · next hneg =>
    split at h
    · cases h
    · next hbig => exact ⟨Int.not_lt.mp hneg, Int.not_lt.mp hbig⟩

/-- The check of a resource quantity. A blank text is not checked. -/
def checkQuantity (parseQuantity : String → Bool) (message text : String) : Except String Unit :=
  if !isBlank text && !parseQuantity (trimSpace text) then .error message else .ok ()

namespace AdminWorkerConfigRequest

/-- No field is supplied. -/
def empty (req : AdminWorkerConfigRequest) : Bool :=
  decide (req.maxPods = 0) && decide (req.workerReplicas = 0) && decide (req.maxJobsPerNode = 0) &&
    isBlank req.cpuLimit && isBlank req.memoryLimit && isBlank req.localityKey &&
    isBlank req.localityLabelSelector

def validate (parseQuantity : String → Bool) (req : AdminWorkerConfigRequest) :
    Except String Unit := do
  checkRange "maxPods" req.maxPods maxAdminPods
  checkRange "workerReplicas" req.workerReplicas maxWorkerReplicas
  checkRange "maxJobsPerNode" req.maxJobsPerNode KubeMapReduce.maxJobsPerNode
  checkQuantity parseQuantity "invalid cpuLimit" req.cpuLimit
  checkQuantity parseQuantity "invalid memoryLimit" req.memoryLimit
  if req.empty then .error "at least one configuration field must be provided" else .ok ()

/-- The update that is sent to the manager. -/
def update (req : AdminWorkerConfigRequest) : SystemConfigUpdate where
  maxConcurrentPods := req.maxPods
  cpuLimit := req.cpuLimit
  memoryLimit := req.memoryLimit
  workerReplicas := req.workerReplicas
  maxJobsPerNode := req.maxJobsPerNode
  localityKey := req.localityKey
  localityLabelSelector := req.localityLabelSelector

end AdminWorkerConfigRequest

/-- The numbers of a valid request. -/
theorem validate_ok (h : req.validate parseQuantity = .ok ()) :
    (0 ≤ req.maxPods ∧ req.maxPods ≤ maxAdminPods) ∧
      (0 ≤ req.workerReplicas ∧ req.workerReplicas ≤ maxWorkerReplicas) ∧
      (0 ≤ req.maxJobsPerNode ∧ req.maxJobsPerNode ≤ maxJobsPerNode) := by
  unfold AdminWorkerConfigRequest.validate at h
  obtain ⟨_, hpods, h⟩ := bind_ok h
  obtain ⟨_, hreplicas, h⟩ := bind_ok h
  obtain ⟨_, hjobs, _⟩ := bind_ok h
  exact ⟨checkRange_ok hpods, checkRange_ok hreplicas, checkRange_ok hjobs⟩

/-! ## 3. The handlers -/

/-- What the manager checks of a request to its internal address. -/
structure InternalServer where
  internalAPIKey : String
  allowInsecureLoopback : Bool
  /-- The request comes from a loopback address. -/
  loopback : Bool

def InternalServer.isAuthorizedInternalRequest (m : InternalServer) (provided : String) : Bool :=
  let expectedToken := trimSpace m.internalAPIKey
  if expectedToken ≠ "" then decide (provided = expectedToken)
  else m.allowInsecureLoopback && m.loopback

/-- The status of PUT /internal/config, and the table after it. The payload is one that the API
has marshalled. -/
def InternalServer.putConfig (m : InternalServer) (token : String) (req : SystemConfigUpdate)
    (table : Option SystemConfigRow) : Nat × Option SystemConfigRow :=
  if !m.isAuthorizedInternalRequest token then (401, table) else
  match upsertSystemConfig req table with
  | (.error _, table') => (500, table')
  | (.ok (), table') => (200, table')

inductive ConfigBody where
  | error (message : String)
  | accepted (req : AdminWorkerConfigRequest)
deriving DecidableEq

structure ConfigResponse where
  code : Nat
  body : ConfigBody
deriving DecidableEq

section Handler

variable (h : Handlers) (m : InternalServer) (parseQuantity : String → Bool)
  (parsesURL : String → Bool) (fate : Fate)

/-- The request to the manager, and the answer to the administrator. -/
def Handlers.forwardConfig (req : AdminWorkerConfigRequest) (table : Option SystemConfigRow) :
    ConfigResponse × Option SystemConfigRow :=
  let (code, table') := m.putConfig h.internalAPIKey req.update table
  match fate.meet table table' with
  | (false, t) => (⟨503, .error "manager service unreachable"⟩, t)
  | (true, t) =>
    if code ≠ 200 then (⟨code, .error "failed to update config via manager"⟩, t)
    else (⟨200, .accepted req⟩, t)

/-- POST /api/v1/admin/config/workers. -/
def Handlers.handleAdminConfigWorkers (method : String)
    (body : Except BodyErr AdminWorkerConfigRequest) (table : Option SystemConfigRow) :
    ConfigResponse × Option SystemConfigRow :=
  if method ≠ "POST" then (⟨405, .error "method not allowed"⟩, table) else
  match body with
  | .error .tooLarge => (⟨413, .error "request payload too large"⟩, table)
  | .error .invalid => (⟨400, .error "invalid worker config payload"⟩, table)
  | .ok req =>
    match req.validate parseQuantity with
    | .error message => (⟨400, .error message⟩, table)
    | .ok () =>
      match buildManagerInternalURL h.managerAddr "/internal/config" with
      | .error _ => (⟨500, .error "manager internal endpoint misconfigured"⟩, table)
      | .ok url =>
        if !parsesURL url then (⟨500, .error "failed to build proxy request"⟩, table)
        else h.forwardConfig m fate req table

variable {h m parseQuantity parsesURL} {url : String} {req : AdminWorkerConfigRequest}

end Handler

/-! ## 4. Partial updates -/

/-- What is promised of a request with any subset of the fields: those that are supplied, and the
others as they are stored. -/
def AdminWorkerConfigRequest.promised (req : AdminWorkerConfigRequest)
    (stored : SystemConfigUpdate) : SystemConfigUpdate where
  maxConcurrentPods := if req.maxPods = 0 then stored.maxConcurrentPods else req.maxPods
  cpuLimit := if isBlank req.cpuLimit then stored.cpuLimit else req.cpuLimit
  memoryLimit := if isBlank req.memoryLimit then stored.memoryLimit else req.memoryLimit
  workerReplicas := if req.workerReplicas = 0 then stored.workerReplicas else req.workerReplicas
  maxJobsPerNode := if req.maxJobsPerNode = 0 then stored.maxJobsPerNode else req.maxJobsPerNode
  localityKey := if isBlank req.localityKey then stored.localityKey else req.localityKey
  localityLabelSelector :=
    if isBlank req.localityLabelSelector then stored.localityLabelSelector
    else req.localityLabelSelector

/-- All numbers are supplied, and each text is supplied or stored as the request has it. -/
structure Complete (req : AdminWorkerConfigRequest) (stored : SystemConfigUpdate) : Prop where
  maxPods : req.maxPods ≠ 0
  workerReplicas : req.workerReplicas ≠ 0
  maxJobsPerNode : req.maxJobsPerNode ≠ 0
  cpuLimit : isBlank req.cpuLimit = true → stored.cpuLimit = req.cpuLimit
  memoryLimit : isBlank req.memoryLimit = true → stored.memoryLimit = req.memoryLimit
  localityKey : isBlank req.localityKey = true → stored.localityKey = req.localityKey
  localityLabelSelector : isBlank req.localityLabelSelector = true →
    stored.localityLabelSelector = req.localityLabelSelector

/-- With all numbers supplied, the request is sent as promised exactly if it is complete. -/
theorem promised_eq_update {stored : SystemConfigUpdate} (hpods : req.maxPods ≠ 0)
    (hreplicas : req.workerReplicas ≠ 0) (hjobs : req.maxJobsPerNode ≠ 0) :
    req.promised stored = req.update ↔ Complete req stored := by
  simp only [AdminWorkerConfigRequest.promised, AdminWorkerConfigRequest.update,
    SystemConfigUpdate.mk.injEq, ite_eq_right_iff]
  constructor
  · rintro ⟨_, hcpu, hmem, _, _, hkey, hsel⟩
    exact ⟨hpods, hreplicas, hjobs, hcpu, hmem, hkey, hsel⟩
  · rintro ⟨_, _, _, hcpu, hmem, hkey, hsel⟩
    exact ⟨fun h => absurd h hpods, hcpu, hmem, fun h => absurd h hreplicas,
      fun h => absurd h hjobs, hkey, hsel⟩

/-- A valid request passes the CHECKs if its numbers are supplied. -/
theorem update_checked (h : req.validate parseQuantity = .ok ()) :
    req.update.FitsColumns ∧ (req.update.Checked ↔
      req.maxPods ≠ 0 ∧ req.workerReplicas ≠ 0 ∧ req.maxJobsPerNode ≠ 0) := by
  obtain ⟨hpods, hreplicas, hjobs⟩ := validate_ok h
  have hfits : ∀ n limit : Int, 0 ≤ n ∧ n ≤ limit → limit ≤ 10000 → fitsInteger n = true := by
    intro n limit hn hlimit
    simp only [fitsInteger, Bool.and_eq_true, decide_eq_true_eq]
    omega
  have hpos : ∀ n limit : Int, 0 ≤ n ∧ n ≤ limit → (0 < n ↔ n ≠ 0) := by
    intro n limit hn
    omega
  exact ⟨⟨hfits _ _ hpods (by decide), hfits _ _ hreplicas (by decide),
    hfits _ _ hjobs (by decide)⟩,
    and_congr (hpos _ _ hpods) (and_congr (hpos _ _ hreplicas) (hpos _ _ hjobs))⟩

/-- A valid request violates no CHECK, writes the fields that it supplies and keeps the others
exactly if it is complete. -/
theorem workerConfig_partial_iff (parseQuantity : String → Bool) (req : AdminWorkerConfigRequest)
    (stored : SystemConfigRow) (hreq : req.validate parseQuantity = .ok ()) :
    (upsertSystemConfig req.update (some stored)).1 = .ok () ∧
        getSystemConfig (upsertSystemConfig req.update (some stored)).2 =
          req.promised stored.toSystemConfigUpdate ↔
      Complete req stored.toSystemConfigUpdate := by
  obtain ⟨hfits, hchecked⟩ := update_checked hreq
  rw [upsertSystemConfig_ok, getSystemConfig_upsert]
  constructor
  · rintro ⟨hok, heq⟩
    obtain ⟨hpods, hreplicas, hjobs⟩ := hchecked.mp hok.2
    rw [if_pos hok] at heq
    exact (promised_eq_update hpods hreplicas hjobs).mp heq.symm
  · intro hc
    have hok := And.intro hfits (hchecked.mpr ⟨hc.maxPods, hc.workerReplicas, hc.maxJobsPerNode⟩)
    refine ⟨hok, ?_⟩
    rw [if_pos hok]
    exact ((promised_eq_update hc.maxPods hc.workerReplicas hc.maxJobsPerNode).mpr hc).symm

def fullRequest : AdminWorkerConfigRequest where
  maxPods := 20
  cpuLimit := "1"
  memoryLimit := "1Gi"
  workerReplicas := 2
  maxJobsPerNode := 8
  localityKey := "kubernetes.io/hostname"
  localityLabelSelector := "app=minio"

theorem workerConfig_partial_full :
    fullRequest.validate (fun _ => true) = .ok () ∧
      (upsertSystemConfig fullRequest.update (some seedRow)).1 = .ok () ∧
      getSystemConfig (upsertSystemConfig fullRequest.update (some seedRow)).2 =
        fullRequest.promised seedRow.toSystemConfigUpdate :=
  ⟨by decide, (workerConfig_partial_iff (fun _ => true) fullRequest seedRow (by decide)).mpr
    ⟨by decide, by decide, by decide, by decide, by decide, by decide, by decide⟩⟩

/-- Only the number of pods. -/
def podsRequest : AdminWorkerConfigRequest := ⟨20, "", "", 0, 0, "", ""⟩

/-- The three numbers. -/
def numbersRequest : AdminWorkerConfigRequest := ⟨20, "", "", 2, 8, "", ""⟩

/-- The API and the manager share a token. -/
def configApi : Handlers := { smallApi with internalAPIKey := "token" }

def configServer : InternalServer := ⟨"token", false, false⟩

/-- Both requests are valid. The first one fails in the database with nothing written. The second
one is accepted, and the limits and the locality in the row are empty. -/
theorem workerConfig_partial_lost :
    podsRequest.validate (fun _ => true) = .ok () ∧
      configApi.handleAdminConfigWorkers configServer (fun _ => true) (fun _ => true) .answered
          "POST" (.ok podsRequest) (some seedRow) =
        (⟨500, .error "failed to update config via manager"⟩, some seedRow) ∧
      (upsertSystemConfig podsRequest.update (some seedRow)).1 = .error .checkViolation ∧
    numbersRequest.validate (fun _ => true) = .ok () ∧
      (configApi.handleAdminConfigWorkers configServer (fun _ => true) (fun _ => true) .answered
        "POST" (.ok numbersRequest) (some seedRow)).1 = ⟨200, .accepted numbersRequest⟩ ∧
      getSystemConfig (configApi.handleAdminConfigWorkers configServer (fun _ => true)
          (fun _ => true) .answered "POST" (.ok numbersRequest) (some seedRow)).2 =
        ⟨20, "", "", 2, 8, "", ""⟩ := by
  refine ⟨by decide, ?_, by decide, by decide, by decide, by decide⟩
  rfl

end KubeMapReduce
