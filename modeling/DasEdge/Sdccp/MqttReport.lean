import Mathlib.Algebra.Order.Ring.Nat
import Mathlib.Data.List.Basic

/-!
# The MQTT report

`__mqtt_report_data` of `sdccp_mqtt.c`, for the enabled variables of a channel that come behind
`*ppnode`. The report visits them one after another, reads and clears their averagers, and publishes
what it has read afterwards. What the system does is given: for which objects there is memory, the
ticks, and each attempt to publish. The numbers of an averager are of any type.
-/

namespace DasEdge.Sdccp

variable {V : Type*}

/-- The fields of `VarAvg_t` that a report reads. -/
structure MqttAvg (V : Type*) where
  time : UInt64
  count : ℕ
  valAvg : V
  valMin : V
  valMax : V
  deriving DecidableEq

/-- What a report is for: `mins` is 0, 1, 5 or 60. -/
inductive MqttMins
  | real
  | one
  | five
  | hour
  deriving DecidableEq

/-- The upload of a variable. -/
structure MqttVar (V : Type*) where
  szNid : Option String
  szFid : Option String
  xAvgUp : MqttAvg V
  xAvgMin : MqttAvg V
  xAvg5Min : MqttAvg V
  xAvgHour : MqttAvg V
  deriving DecidableEq

/-- The fields of `mqtt_cfg_t` that a report reads. -/
structure MqttCfg where
  topicPub : Option String
  realInterval : UInt32
  sharpFlag : Bool
  noMin : Bool
  noMax : Bool
  noAvg : Bool
  noCou : Bool

/-- The data of a variable in a message. -/
structure MqttItem (V : Type*) where
  nid : Option String
  fid : Option String
  min : Option V
  max : Option V
  avg : Option V
  cou : Option V
  deriving DecidableEq

/-- The averager that a report reads. -/
def MqttVar.avg (node : MqttVar V) : MqttMins → MqttAvg V
  | .real => node.xAvgUp
  | .one => node.xAvgMin
  | .five => node.xAvg5Min
  | .hour => node.xAvgHour

/-- The variable with another value of that averager. -/
def MqttVar.setAvg (node : MqttVar V) (avg : MqttAvg V) : MqttMins → MqttVar V
  | .real => { node with xAvgUp := avg }
  | .one => { node with xAvgMin := avg }
  | .five => { node with xAvg5Min := avg }
  | .hour => { node with xAvgHour := avg }

/-- `time_diff`, an `int`, in ticks. -/
def mqttTimeDiff (cfg : MqttCfg) : MqttMins → Int32
  | .real => cfg.realInterval.toInt32
  | .one => 60 * 1000
  | .five => 5 * 60 * 1000
  | .hour => 60 * 60 * 1000

/-- An averager is due: at each sharp report, or when its time has passed. -/
def MqttDue (cfg : MqttCfg) (mins : MqttMins) (avg : MqttAvg V) (tick : UInt64) : Prop :=
  (cfg.sharpFlag = true ∧ mins ≠ .real) ∨ mqttTimeDiff cfg mins ≤ (tick - avg.time).toUInt32.toInt32

instance decidableMqttDue (cfg : MqttCfg) (mins : MqttMins) (avg : MqttAvg V) (tick : UInt64) :
    Decidable (MqttDue cfg mins avg tick) := inferInstanceAs (Decidable (_ ∨ _))

/-- Some statistic is enabled, so that `data_flag` is set. -/
def MqttCfg.Shows (cfg : MqttCfg) : Prop :=
  ¬ (cfg.noMin = true ∧ cfg.noMax = true ∧ cfg.noAvg = true ∧ cfg.noCou = true)

instance decidableMqttShows (cfg : MqttCfg) : Decidable cfg.Shows := inferInstanceAs (Decidable (¬ _))

/-- The data that is made of a variable, with the enabled statistics. -/
def mqttItem (div : V → ℕ → V) (cfg : MqttCfg) (node : MqttVar V) (avg : MqttAvg V) : MqttItem V where
  nid := node.szNid
  fid := node.szFid
  min := if cfg.noMin then none else some avg.valMin
  max := if cfg.noMax then none else some avg.valMax
  avg := if cfg.noAvg then none else some (div avg.valAvg avg.count)
  cou := if cfg.noCou then none else some avg.valAvg

/-- The averager of a variable is read and reset: it has a name, is due and has samples. -/
def MqttVar.Taken (cfg : MqttCfg) (mins : MqttMins) (tick : UInt64) (node : MqttVar V) : Prop :=
  (node.szNid.isSome = true ∨ node.szFid.isSome = true) ∧ MqttDue cfg mins (node.avg mins) tick ∧
    0 < (node.avg mins).count

instance decidableTaken (cfg : MqttCfg) (mins : MqttMins) (tick : UInt64) (node : MqttVar V) :
    Decidable (node.Taken cfg mins tick) := inferInstanceAs (Decidable (_ ∧ _ ∧ _))

/-- A variable after it has been visited, the data that is added to the list, and whether its
averager has been reset. -/
structure MqttVisit (V : Type*) where
  node : MqttVar V
  item : Option (MqttItem V)
  reset : Bool

/-- A variable is visited, with the ticks of the test and of the reset. -/
def mqttVisit [Zero V] (div : V → ℕ → V) (cfg : MqttCfg) (mins : MqttMins) (tick : UInt64 × UInt64)
    (node : MqttVar V) :
    MqttVisit V :=
  if node.Taken cfg mins tick.1 then
    { node := node.setAvg { time := tick.2, count := 0, valAvg := 0, valMin := 0, valMax := 0 } mins
      item := if cfg.Shows then some (mqttItem div cfg node (node.avg mins)) else none
      reset := true }
  else { node := node, item := none, reset := false }

/-- An attempt to publish: `s_mqtt_run`, whether the client is connected, whether
`MQTTClient_publishMessage` succeeds, and whether the client is connected afterwards. -/
structure MqttAttempt where
  run : Bool
  connected : Bool
  success : Bool
  still : Bool

/-- What the system does in a report. There is memory for the package and the list or not, for the
object of each variable or not, and for the text of the message or not. -/
structure MqttEnv where
  package : Bool
  object : ℕ → Bool
  ticks : ℕ → UInt64 × UInt64
  text : Bool
  attempts : ℕ → MqttAttempt

/-- The variables up to the first without an object. -/
def mqttVisited (object : ℕ → Bool) : ℕ → List (MqttVar V) → List (MqttVar V)
  | _, [] => []
  | n, node :: rest => if object n then node :: mqttVisited object (n + 1) rest else []

/-- The loop that publishes, with the tries left: whether an attempt succeeds. -/
def mqttPublish (attempts : ℕ → MqttAttempt) : ℕ → ℕ → Bool
  | 0, _ => false
  | repubRetry + 1, n =>
    let attempt := attempts n
    if attempt.run && attempt.connected then
      if attempt.success then true
      else if attempt.still then mqttPublish attempts repubRetry (n + 1)
      else false
    else false

/-- `MQTT_REPUBLISH_TIMES` -/
def mqttRepublishTimes : ℕ := 2

/-- The visits of a report, the list in its message, and whether the message with the list has been
published. -/
structure MqttReport (V : Type*) where
  visits : List (MqttVisit V)
  list : List (MqttItem V)
  published : Bool

/-- The variables that a report visits. -/
def MqttEnv.visited (env : MqttEnv) (vars : List (MqttVar V)) : List (MqttVar V) :=
  if env.package then mqttVisited env.object 0 vars else []

/-- `__mqtt_report_data` -/
def mqttReportData [Zero V] (div : V → ℕ → V) (cfg : MqttCfg) (mins : MqttMins) (env : MqttEnv)
    (vars : List (MqttVar V)) :
    MqttReport V :=
  let visits := (env.visited vars).mapIdx fun n node => mqttVisit div cfg mins (env.ticks n) node
  let list := visits.filterMap MqttVisit.item
  { visits := visits
    list := list
    published :=
      cfg.topicPub.isSome && decide (list ≠ []) && env.text && mqttPublish env.attempts
      mqttRepublishTimes 0 }

/-- An averager is reset only when its enabled statistics are in a message that has been published,
and a variable is in the message once for a reset. -/
def MqttReportKeeps [Zero V] (div : V → ℕ → V) (cfg : MqttCfg) (mins : MqttMins) (env : MqttEnv)
    (vars : List (MqttVar V)) : Prop :=
  let report := mqttReportData div cfg mins env vars
  ∀ (n : ℕ) (node : MqttVar V) (visit : MqttVisit V), (env.visited vars)[n]? = some node →
    report.visits[n]? = some visit →
    (visit.reset = true →
      visit.item = some (mqttItem div cfg node (node.avg mins)) ∧ report.published = true) ∧
    visit.item.isSome = visit.reset

/-- A visit resets the averager that it takes. -/
theorem mqttVisit_of_taken [Zero V] (div : V → ℕ → V) {cfg : MqttCfg} {mins : MqttMins}
    {tick : UInt64 × UInt64}
    {node : MqttVar V} (h : node.Taken cfg mins tick.1) :
    (mqttVisit div cfg mins tick node).reset = true ∧ (mqttVisit div cfg mins tick node).item =
      if cfg.Shows then some (mqttItem div cfg node (node.avg mins)) else none := by
  rw [mqttVisit, if_pos h]
  exact ⟨rfl, rfl⟩

/-- A visit that does not take the averager leaves the variable. -/
theorem mqttVisit_of_not_taken [Zero V] (div : V → ℕ → V) {cfg : MqttCfg} {mins : MqttMins}
    {tick : UInt64 × UInt64}
    {node : MqttVar V} (h : ¬ node.Taken cfg mins tick.1) :
    mqttVisit div cfg mins tick node = { node := node, item := none, reset := false } := if_neg h

/-- The visits are those of the visited variables. -/
theorem mqttReportData_visits [Zero V] (div : V → ℕ → V) (cfg : MqttCfg) (mins : MqttMins)
    (env : MqttEnv)
    (vars : List (MqttVar V)) {n : ℕ} {node : MqttVar V} (h : (env.visited vars)[n]? = some node) :
    (mqttReportData div cfg mins env vars).visits[n]? =
      some (mqttVisit div cfg mins (env.ticks n) node) := by
  simp only [mqttReportData, List.getElem?_mapIdx, h, Option.map_some]

/-- A message with the data of a variable is published when there is a topic and a text and an
attempt succeeds. -/
theorem mqttReportData_published [Zero V] (div : V → ℕ → V) (cfg : MqttCfg) (mins : MqttMins)
    (env : MqttEnv)
    (vars : List (MqttVar V)) {n : ℕ} {visit : MqttVisit V} {item : MqttItem V}
    (hvisit : (mqttReportData div cfg mins env vars).visits[n]? = some visit)
    (hitem : visit.item = some item) :
    (mqttReportData div cfg mins env vars).published = true ↔
      cfg.topicPub.isSome = true ∧ env.text = true ∧
      mqttPublish env.attempts mqttRepublishTimes 0 = true := by
  have hlist : (mqttReportData div cfg mins env vars).list ≠ [] := by
    have hmem : item ∈ (mqttReportData div cfg mins env vars).list :=
      List.mem_filterMap.mpr ⟨visit, List.mem_of_getElem? hvisit, hitem⟩
    exact List.ne_nil_of_mem hmem
  have hpublished : (mqttReportData div cfg mins env vars).published =
      (cfg.topicPub.isSome && decide ((mqttReportData div cfg mins env vars).list ≠ []) && env.text &&
        mqttPublish env.attempts mqttRepublishTimes 0) := rfl
  rw [hpublished, decide_eq_true hlist]
  simp [and_assoc]

/-- A report loses nothing exactly when it takes no averager, or a statistic is enabled, there is a
topic and a text, and an attempt to publish succeeds. -/
theorem mqtt_report_keeps_iff [Zero V] (div : V → ℕ → V) (cfg : MqttCfg) (mins : MqttMins)
    (env : MqttEnv)
    (vars : List (MqttVar V)) :
    MqttReportKeeps div cfg mins env vars ↔
      (∀ (n : ℕ) (node : MqttVar V), (env.visited vars)[n]? = some node →
        ¬ node.Taken cfg mins (env.ticks n).1) ∨
      (cfg.Shows ∧ cfg.topicPub.isSome = true ∧ env.text = true ∧
        mqttPublish env.attempts mqttRepublishTimes 0 = true) := by
  constructor
  · intro hkeeps
    by_cases htaken : ∃ (n : ℕ) (node : MqttVar V), (env.visited vars)[n]? = some node ∧
      node.Taken cfg mins (env.ticks n).1
    · obtain ⟨n, node, hnode, htakes⟩ := htaken
      have hvisit := mqttReportData_visits div cfg mins env vars hnode
      obtain ⟨hreset, hitem⟩ := mqttVisit_of_taken div htakes
      obtain ⟨hcontained, hpublished⟩ := (hkeeps n node _ hnode hvisit).1 hreset
      have hshows : cfg.Shows := by
        by_contra hnone
        rw [hitem, if_neg hnone] at hcontained
        cases hcontained
      exact Or.inr ⟨hshows,
        (mqttReportData_published div cfg mins env vars hvisit hcontained).mp hpublished⟩
    · exact Or.inl fun n node hnode htakes => htaken ⟨n, node, hnode, htakes⟩
  · intro hcases n node visit hnode hvisit
    have hsame :=
      Option.some_inj.mp ((mqttReportData_visits div cfg mins env vars hnode).symm.trans hvisit)
    by_cases htakes : node.Taken cfg mins (env.ticks n).1
    · obtain ⟨hreset, hitem⟩ := mqttVisit_of_taken div htakes
      rcases hcases with hnone | ⟨hshows, hpublishes⟩
      · exact absurd htakes (hnone n node hnode)
      · rw [if_pos hshows] at hitem
        rw [hsame] at hreset hitem
        refine ⟨fun _ => ⟨hitem, ?_⟩, by rw [hitem, hreset]; rfl⟩
        exact (mqttReportData_published div cfg mins env vars hvisit hitem).mpr hpublishes
    · rw [mqttVisit_of_not_taken div htakes] at hsame
      rw [← hsame]
      exact ⟨fun hreset => absurd hreset Bool.false_ne_true, rfl⟩

/-- A variable with a sample is reset, and the client has lost its connection. -/
theorem mqtt_report_lost :
    ¬ MqttReportKeeps (fun (value : ℕ) count => value / count)
      { topicPub := some "up", realInterval := 60000, sharpFlag := true, noMin := false,
        noMax := false, noAvg := false,
        noCou := false }
      .one
      { package := true, object := fun _ => true, ticks := fun _ => (60000, 60000), text := true,
        attempts := fun _ => { run := true, connected := false, success := false, still := false } }
      [{ szNid := some "n", szFid := some "f"
         xAvgUp := { time := 0, count := 0, valAvg := 0, valMin := 0, valMax := 0 }
         xAvgMin := { time := 0, count := 1, valAvg := 7, valMin := 7, valMax := 7 }
         xAvg5Min := { time := 0, count := 0, valAvg := 0, valMin := 0, valMax := 0 }
         xAvgHour := { time := 0, count := 0, valAvg := 0, valMin := 0, valMax := 0 } }] := by
  intro h
  obtain ⟨-, hpublished⟩ := (h 0 _ _ rfl rfl).1 rfl
  cases hpublished

end DasEdge.Sdccp
