import DasEdge.Board.XferNet
import DasEdge.Library.CJson

/-!
# The backup of the configuration

The configuration is written as lines of JSON between two pairs of marks, the version first, and it
is read back line by line through a buffer of fixed size. A text file among it is written with other
bytes for the ends of its lines. How values are printed as texts and parsed is left open.
-/

namespace DasEdge.Board

open DasEdge.Library

/-- `_LINE_BUFSZ` -/
def lineBufsz : ℕ := 10240 + 8

/-- The bytes of a C string. -/
def cString (buf : List UInt8) : List UInt8 := buf.takeWhile (· ≠ 0)

/-- `while (line[index++] != '\n' && index < len)`: the index behind the first line feed, or at the
end. -/
def lineEnd : List UInt8 → ℕ
  | [] => 0
  | c :: rest => if c = 10 then 1 else lineEnd rest + 1

/-- `__readline` when the file has not ended: the line, and the buffer and the rest of the file
behind it. -/
def readline (bufsz : ℕ) (s : List UInt8 × List UInt8) : List UInt8 × (List UInt8 × List UInt8) :=
  let chunk := s.2.take (bufsz - 1)
  let line := (chunk ++ s.1.drop chunk.length).set (bufsz - 1) 0
  let index := lineEnd chunk
  let line := if index < chunk.length then line.set index 0 else line
  let line := if 1 ≤ index ∧ (line)[index - 1]? = some 10 then line.set (index - 1) 0 else line
  let line := if 2 ≤ index ∧ (line)[index - 2]? = some 13 then line.set (index - 2) 0 else line
  (cString line, line, s.2.drop index)

/-- `__check_cfg_line` -/
def checkCfgLine (line : List UInt8) : Option (List UInt8) :=
  if (line)[0]? = some 35 ∧ (line)[1]? = some 35 ∧ (line)[2]? = some 123 ∧
    (line)[line.length - 3]? = some 125 ∧
      (line)[line.length - 2]? = some 35 ∧ (line)[line.length - 1]? = some 35 then
    some ((line.take (line.length - 2)).drop 2)
  else none

/-- The loop of `cfg_recover_with_json`: the lines that it reads from a file. -/
def readLines (bufsz : ℕ) : ℕ → List UInt8 × List UInt8 → Option (List (List UInt8))
  | 0, _ => none
  | fuel + 1, s =>
    if s.2 = [] then some []
    else
      let r := readline bufsz s
      (readLines bufsz fuel r.2).map (r.1 :: ·)

/-- `cfg_recover_with_json`: the text that is handed to `__parse_cfg_ver`, if there is one, and the
texts that are handed to `__parse_cfg_line`. A round reads at least one byte. -/
def cfgRecoverWithJson (buf file : List UInt8) : Option (Option (List UInt8) × List (List UInt8)) :=
  (readLines lineBufsz (file.length + 1) (buf, file)).map fun lines =>
    let texts := lines.filterMap checkCfgLine
    (texts.head?, texts.tail)

/-- What the configuration is written from: the object that the function of a type fills for a
number, the number of collected variables, and the text files. -/
structure CfgEnv where
  cfg : String → ℕ → CJson
  nExtDataListCnt : ℕ
  textFile : String → Option (List UInt8)

/-- The types that `cfg_save_with_json` writes with `__write_cfg_line`, with their numbers. -/
def cfgLines (env : CfgEnv) : List (String × ℕ) :=
  [("net", 0)] ++ (List.range boardTcpipMax).map (("tcpip", ·)) ++
    (List.range (protoDevRsMax + 1)).map (("uart", ·)) ++
    (List.range env.nExtDataListCnt).map (("extvar", ·)) ++
    [("gprs_net", 0), ("gprs_work", 0), ("auth", 0), ("storage", 0), ("host", 0), ("zigbee", 0),
    ("uart_adds", 0)]

/-- The paths of the files that `cfg_save_with_json` writes with `__write_ini_line`. -/
def iniPaths : List String :=
  ["/media/nand/cfg/rtu_dm101_", "/media/nand/cfg/rtu_hjt212_",
    "/media/nand/cfg/rtu_cc_bjdc_"].flatMap fun pre =>
    (List.range (boardTcpipMax + 1)).map fun n => pre ++ toString n ++ ".ini"

/-- The value of a line with a `type` and a `cfg`. -/
def cfgItem (type : String) (cfg : CJson) : CJson := .object [("type", .string type), ("cfg", cfg)]

/-- The bytes that stand for the ends of lines in a line. -/
def hideLineEnd (b : UInt8) : UInt8 := if b = 13 then 1 else if b = 10 then 2 else b

/-- They are put back. -/
def showLineEnd (b : UInt8) : UInt8 := if b = 1 then 13 else if b = 2 then 10 else b

/-- `das_read_text_file`, which has no buffer for an empty file. -/
def dasReadTextFile (env : CfgEnv) (path : String) : Option (List UInt8) :=
  (env.textFile path).filter (· ≠ [])

/-- The value that `__write_ini_line` writes for a file. -/
def iniItem (path : String) (content : List UInt8) : CJson :=
  cfgItem "ini" (.object [("path", .string path), ("data", .string (textOf (content.map hideLineEnd)))])

/-- The values that `cfg_save_with_json` writes behind the version. -/
def cfgItems (env : CfgEnv) : List CJson :=
  (cfgLines env).map (fun line => cfgItem line.1 (env.cfg line.1 line.2)) ++
    iniPaths.filterMap fun path => (dasReadTextFile env path).map (iniItem path)

/-- A text as a line of the file. -/
def markedLine (text : List UInt8) : List UInt8 := [35, 35] ++ text ++ [35, 35, 10]

/-- The text of the version, with `CFG_VER`. -/
def verText : List UInt8 := bytesOf "\x7b\"ver\":1\x7d"

/-- `cfg_save_with_json`: the file that it writes. -/
def cfgSaveWithJson (print : CJson → List UInt8) (env : CfgEnv) : List UInt8 :=
  markedLine verText ++ (cfgItems env).flatMap fun item => markedLine (print item)

/-- What `__parse_cfg_line` does with a line: a configuration that it sets, or a file that it writes. -/
inductive CfgAction where
  | nothing
  | set (type : String) (cfg : CJson)
  | writeTextFile (path : String) (content : List UInt8)

/-- `__parse_ini_line` -/
def parseIniLine (item : CJson) : CfgAction :=
  match item.getString "path", item.getString "data" with
  | some path, some data =>
    if bytesOf data = [] then .nothing else .writeTextFile path ((bytesOf data).map showLineEnd)
  | _, _ => .nothing

/-- The types of the configurations that `__parse_cfg_line` sets. -/
def cfgTypes : List String :=
  ["net", "tcpip", "uart", "extvar", "gprs_net", "gprs_work", "auth", "storage", "host", "zigbee",
    "uart_adds"]

/-- `__parse_cfg_line` -/
def parseCfgLine (parse : List UInt8 → Option CJson) (line : List UInt8) : CfgAction :=
  match parse line with
  | none => .nothing
  | some json =>
    match json.getString "type", json.getObjectItem "cfg" with
    | some type, some cfg =>
      match cfgTypes.find? (strcasecmp type) with
      | some known => .set known cfg
      | none => if strcasecmp type "ini" then parseIniLine cfg else .nothing
    | _, _ => .nothing

end DasEdge.Board
