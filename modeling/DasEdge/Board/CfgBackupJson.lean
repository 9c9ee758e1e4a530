import DasEdge.Board.CfgBackup
import DasEdge.Cjson.RoundTrip

/-!
# A backup with the printer and the parser of the box

The texts of a backup are what `cJSON_PrintUnformatted` writes, and `__parse_cfg_line` hands them to
`cJSON_Parse`. The printer escapes the bytes that would end a line, and the parser takes the escapes
back, so that a configuration is set as it was and a text file gets its bytes.
-/

namespace DasEdge.Board

open DasEdge.Library DasEdge.Cjson

/-- `cJSON_Parse` on a text that a zero ends. -/
def cJSONParseText (toInt : NumberText → Int32) (text : List UInt8) : Option CJson :=
  match cJSONParse toInt (text ++ [0]) with
  | .ok item _ => some item
  | _ => none

/-- A printed text is parsed as its value. -/
theorem cJSONParseText_print {toInt : NumberText → Int32}
    (hint : ∀ n : Int32, toInt (intText n.toInt) = n)
    {item : CJson} (hplain : Plain item) :
    cJSONParseText toInt (cJSONPrintUnformatted item) = some item := by
  have hread := cJSONParse_printValue hint false 0 hplain []
  rw [cJSONParseText, cJSONPrintUnformatted, hread]

/-- No byte of an escaped one ends a line or a text. -/
theorem escapeByte_printable {b : UInt8} (hb : b ≠ 0) : ∀ c ∈ escapeByte b, 32 ≤ c := by
  have hall : ∀ n < 256, n ≠ 0 →
      (escapeByte (UInt8.ofNat n)).all (fun c => decide (32 ≤ c)) = true := by
    decide +kernel
  have hzero : b.toNat ≠ 0 := fun h => hb (UInt8.toNat_inj.mp h)
  have hbyte := hall b.toNat b.toNat_lt hzero
  rw [UInt8.ofNat_toNat] at hbyte
  exact fun c hc => of_decide_eq_true (List.all_eq_true.mp hbyte c hc)

/-- A printed string has no byte that ends a line or a text. -/
theorem printString_printable {s : String} (h : PlainText s) : ∀ c ∈ printString s, 32 ≤ c := by
  obtain ⟨bytes, rfl, hbytes⟩ := h
  intro c hc
  rw [printString, bytesOf_textOf, List.mem_append, List.mem_append] at hc
  rcases hc with (hc | hc) | hc
  · rw [List.mem_singleton.mp hc]
    decide
  · obtain ⟨b, hb, hc⟩ := List.mem_flatMap.mp hc
    exact escapeByte_printable (hbytes b hb) c hc
  · rw [List.mem_singleton.mp hc]
    decide

/-- The digits of a number are no bytes that end a line. -/
theorem decimal_printable (n : ℕ) : ∀ c ∈ decimal n, 32 ≤ c := by
  have hall : ∀ digit < 10, 32 ≤ UInt8.ofNat (Nat.digitChar digit).toNat := by decide
  induction n using Nat.strongRecOn with
  | ind n ih =>
    rcases Nat.lt_or_ge n 10 with hlt | hge
    · rw [decimal_of_lt hlt]
      exact List.forall_mem_singleton.mpr (hall n hlt)
    · rw [decimal_succ hge]
      exact List.forall_mem_append.mpr ⟨ih (n / 10) (by omega),
        List.forall_mem_singleton.mpr (hall _ (Nat.mod_lt n (by decide)))⟩

/-- The text of an integer has no byte that ends a line. -/
theorem integer_printable (n : ℤ) : ∀ c ∈ bytesOf (toString n), 32 ≤ c := by
  rw [bytesOf_toString]
  split
  · exact List.forall_mem_cons.mpr ⟨by decide, decimal_printable _⟩
  · exact decimal_printable _

/-- Both parts of a text without such bytes. -/
theorem printable_append {left right : List UInt8} (hleft : ∀ c ∈ left, 32 ≤ c)
    (hright : ∀ c ∈ right, 32 ≤ c) :
    ∀ c ∈ left ++ right, 32 ≤ c := List.forall_mem_append.mpr ⟨hleft, hright⟩

/-- A text of one character. -/
theorem printable_singleton {c : UInt8} (h : 32 ≤ c) : ∀ d ∈ [c], 32 ≤ d :=
  List.forall_mem_singleton.mpr h

/-- The words of the printer. -/
theorem word_printable {word : List UInt8} (h : word.all (fun c => decide (32 ≤ c)) = true) :
    ∀ c ∈ word, 32 ≤ c := fun c hc => of_decide_eq_true (List.all_eq_true.mp h c hc)

mutual

/-- A text in one line has no byte that ends a line or a text. -/
theorem printUnformatted_printable : ∀ item : CJson, Plain item → ∀ c ∈ item.printUnformatted, 32 ≤ c
  | .null, _ => word_printable (by decide)
  | .bool true, _ => word_printable (by decide)
  | .bool false, _ => word_printable (by decide)
  | .number n, _ => integer_printable n.toInt
  | .string s, h => by
    rw [Plain] at h
    exact printString_printable h
  | .array items, h => by
    rw [Plain] at h
    rw [CJson.printUnformatted]
    exact printable_append (printable_append (printable_singleton (by decide))
      (printArray_printable items h))
      (printable_singleton (by decide))
  | .object items, h => by
    rw [Plain] at h
    rw [CJson.printUnformatted]
    exact printable_append (printable_append (printable_singleton (by decide))
      (printObject_printable items h))
      (printable_singleton (by decide))

/-- `printUnformatted_printable` for the items of an array. -/
theorem printArray_printable : ∀ items, PlainItems items → ∀ c ∈ CJson.printArray items, 32 ≤ c
  | [], _ => List.forall_mem_nil _
  | [item], h => printUnformatted_printable item h.1
  | item :: item' :: items, h => by
    rw [CJson.printArray]
    · exact printable_append (printable_append (printUnformatted_printable item h.1)
        (printable_singleton (by decide))) (printArray_printable (item' :: items) h.2)
    all_goals exact List.cons_ne_nil _ _

/-- `printUnformatted_printable` for the items of an object. -/
theorem printObject_printable : ∀ items, PlainMembers items → ∀ c ∈ CJson.printObject items, 32 ≤ c
  | [], _ => List.forall_mem_nil _
  | [(key, item)], h => printable_append (printable_append (printString_printable h.1)
      (printable_singleton (by decide))) (printUnformatted_printable item h.2.1)
  | (key, item) :: item' :: items, h => by
    rw [CJson.printObject]
    · refine printable_append (printable_append
        (printable_append (printable_append (printString_printable h.1)
        (printable_singleton (by decide))) (printUnformatted_printable item h.2.1))
        (printable_singleton (by decide))) ?_
      exact printObject_printable (item' :: items) h.2.2
    all_goals exact List.cons_ne_nil _ _

end

/-- A text of characters that are bytes other than zero. -/
theorem plainText_of_chars {s : String}
    (h : s.toList.all (fun c => decide (c.toNat ≠ 0 ∧ c.toNat < 256)) = true) :
    PlainText s := by
  have hchar : ∀ c ∈ s.toList, c.toNat ≠ 0 ∧ c.toNat < 256 :=
    fun c hc => of_decide_eq_true (List.all_eq_true.mp h c hc)
  refine ⟨bytesOf s, ?_, fun b hb hzero => ?_⟩
  · rw [textOf, bytesOf, List.map_map]
    have hback : s.toList.map ((fun b : UInt8 => Char.ofNat b.toNat) ∘ fun c =>
        UInt8.ofNat c.toNat) = s.toList := by
      refine (List.map_congr_left fun c hc => ?_).trans (List.map_id _)
      rw [Function.comp_apply, UInt8.toNat_ofNat_of_lt' (hchar c hc).2, Char.ofNat_toNat]
      rfl
    rw [hback, String.ofList_toList]
  · obtain ⟨c, hc, rfl⟩ := List.mem_map.mp hb
    have hnat := congrArg UInt8.toNat hzero
    rw [UInt8.toNat_ofNat_of_lt' (hchar c hc).2] at hnat
    exact (hchar c hc).1 hnat

/-- The value of a line, when its configuration is plain. -/
theorem plain_cfgItem {type : String} {cfg : CJson} (htype : PlainText type) (hcfg : Plain cfg) :
    Plain (cfgItem type cfg) := by
  simp only [cfgItem, Plain, PlainMembers, and_true]
  exact ⟨plainText_of_chars (by decide), htype, plainText_of_chars (by decide), hcfg⟩

/-- The types of the configurations are plain. -/
theorem plainText_cfgTypes {type : String} (h : type ∈ cfgTypes) : PlainText type := by
  have hall : cfgTypes.all (fun s => s.toList.all fun c => decide (c.toNat ≠ 0 ∧ c.toNat < 256)) =
    true := by decide
  exact plainText_of_chars (List.all_eq_true.mp hall type h)

/-- The paths of the text files are plain. -/
theorem plainText_iniPaths {path : String} (h : path ∈ iniPaths) : PlainText path := by
  have hall : iniPaths.all (fun s => s.toList.all fun c => decide (c.toNat ≠ 0 ∧ c.toNat < 256)) =
      true := by
    decide
  exact plainText_of_chars (List.all_eq_true.mp hall path h)

/-- The value of a text file without zeros is plain. -/
theorem plain_iniItem {path : String} {content : List UInt8} (hpath : PlainText path)
    (hclean : ∀ b ∈ content, b ≠ 0) : Plain (iniItem path content) := by
  have hhide : ∀ b : UInt8, b ≠ 0 → hideLineEnd b ≠ 0 := by
    intro b hb
    rw [hideLineEnd]
    split
    · decide
    split
    · decide
    · exact hb
  refine plain_cfgItem (plainText_of_chars (by decide)) ?_
  simp only [Plain, PlainMembers, and_true]
  refine ⟨plainText_of_chars (by decide), hpath, plainText_of_chars (by decide), _, rfl, ?_⟩
  exact List.forall_mem_map.mpr fun b hb => hhide b (hclean b hb)

section Backup

variable {env : CfgEnv} (hcfg : ∀ type n, Plain (env.cfg type n))
  (hclean : ∀ path content, env.textFile path = some content → ∀ b ∈ content, b ≠ 0 ∧ b ≠ 1 ∧ b ≠ 2)

include hcfg hclean

/-- The values of a backup are plain. -/
theorem plain_cfgItems : ∀ item ∈ cfgItems env, Plain item := by
  refine List.forall_mem_append.mpr ⟨List.forall_mem_map.mpr fun line hline => ?_, fun item hitem => ?_⟩
  · exact plain_cfgItem (plainText_cfgTypes (mem_cfgTypes hline)) (hcfg _ _)
  · obtain ⟨path, hpath, hitem⟩ := List.mem_filterMap.mp hitem
    obtain ⟨content, hfile, rfl⟩ := Option.map_eq_some_iff.mp hitem
    obtain ⟨hfile, -⟩ := dasReadTextFile_eq_some hfile
    exact plain_iniItem (plainText_iniPaths hpath) fun b hb => (hclean path content hfile b hb).1

/-- The texts of a backup are lines of their own. -/
theorem lineText_cfgItems : ∀ item ∈ cfgItems env, LineText (cJSONPrintUnformatted item) := by
  intro item hitem
  have hplain := plain_cfgItems hcfg hclean item hitem
  have hobject : ∃ items, item = .object items := by
    rcases List.mem_append.mp hitem with h | h
    · obtain ⟨line, -, rfl⟩ := List.mem_map.mp h
      exact ⟨_, rfl⟩
    · obtain ⟨path, -, h⟩ := List.mem_filterMap.mp h
      obtain ⟨content, -, rfl⟩ := Option.map_eq_some_iff.mp h
      exact ⟨_, rfl⟩
  have hprintable := printUnformatted_printable item hplain
  obtain ⟨items, rfl⟩ := hobject
  rw [cJSONPrintUnformatted, printValue_unformatted]
  refine ⟨rfl, ?_, fun b hb => ?_⟩
  · rw [CJson.printUnformatted, List.getLast?_append]
    rfl
  · have hle := hprintable b hb
    refine ⟨?_, ?_, ?_⟩ <;> rintro rfl <;> exact absurd hle (by decide)

end Backup

/-- What a recovery does to have the box as it was: every configuration is set, and every text file is
written. -/
def restoring (env : CfgEnv) : List CfgAction :=
  (cfgLines env).map (fun line => .set line.1 (env.cfg line.1 line.2)) ++
    (iniFiles env).map fun file => .writeTextFile file.1 file.2

/-- A recovery from the backup of a box hands on all that was written, and has the box as it was. -/
def Restores (toInt : NumberText → Int32) (env : CfgEnv) (buf : List UInt8) : Prop :=
  ∃ texts, cfgRecoverWithJson buf (cfgSaveWithJson cJSONPrintUnformatted env) =
    some (some verText, texts) ∧
    texts = (cfgItems env).map cJSONPrintUnformatted ∧
    texts.map (parseCfgLine (cJSONParseText toInt)) = restoring env

/-- The types of the configurations are told apart. -/
theorem find_cfgTypes {type : String} (h : type ∈ cfgTypes) :
    cfgTypes.find? (strcasecmp type) = some type := by
  have hall : cfgTypes.all (fun type => decide (cfgTypes.find? (strcasecmp type) = some type)) =
    true := by decide
  exact of_decide_eq_true (List.all_eq_true.mp hall type h)

/-- The lines of a backup set the configurations and write the text files. -/
theorem parseCfgLine_cfgItems {toInt : NumberText → Int32}
    (hint : ∀ n : Int32, toInt (intText n.toInt) = n)
    {env : CfgEnv} (hcfg : ∀ type n, Plain (env.cfg type n))
    (hclean : ∀ path content, env.textFile path = some content → ∀ b ∈ content, b ≠ 0 ∧ b ≠ 1 ∧ b ≠ 2) :
    ((cfgItems env).map cJSONPrintUnformatted).map (parseCfgLine (cJSONParseText toInt)) =
      restoring env := by
  have hplain := plain_cfgItems hcfg hclean
  obtain ⟨hlines, hfiles⟩ := List.forall_mem_append.mp hplain
  rw [cfgItems, List.map_append, List.map_append, restoring]
  congr 1
  · rw [List.map_map, List.map_map]
    refine List.map_congr_left fun line hline => ?_
    have hread := cJSONParseText_print hint (List.forall_mem_map.mp hlines line hline)
    simp only [Function.comp_apply, parseCfgLine, hread, getString_cfgItem, getObjectItem_cfgItem,
      find_cfgTypes (mem_cfgTypes hline)]
  · rw [List.map_map, iniFiles, List.map_filterMap, List.map_filterMap]
    refine List.filterMap_congr fun path hpath => ?_
    cases hfile : dasReadTextFile env path with
    | none => rfl
    | some content =>
      obtain ⟨hcontent, hne⟩ := dasReadTextFile_eq_some hfile
      have hmem : iniItem path content ∈ iniPaths.filterMap fun path =>
          (dasReadTextFile env path).map (iniItem path) :=
        List.mem_filterMap.mpr ⟨path, hpath, by rw [hfile, Option.map_some]⟩
      have hread := cJSONParseText_print hint (hfiles _ hmem)
      have hwrite := parseCfgLine_iniItem hread hne fun b hb => (hclean path content hcontent b hb).2
      simp only [Option.map_some, Function.comp_apply, hwrite]

/-- With the printer and the parser of the box a recovery has the box as it was exactly when each text
of the backup and the marks around it fit into the buffer of the reader. -/
theorem restores_iff {toInt : NumberText → Int32} (hint : ∀ n : Int32, toInt (intText n.toInt) = n)
    {env : CfgEnv} {buf : List UInt8} (hbuf : buf.length = lineBufsz)
    (hcfg : ∀ type n, Plain (env.cfg type n))
    (hclean : ∀ path content, env.textFile path = some content → ∀ b ∈ content, b ≠ 0 ∧ b ≠ 1 ∧ b ≠ 2) :
    Restores toInt env buf ↔ ∀ item ∈ cfgItems env, (cJSONPrintUnformatted item).length ≤ 10243 := by
  constructor
  · rintro ⟨texts, hrecover, rfl, -⟩ item hitem
    exact length_of_cfgRecoverWithJson hbuf hrecover _ (List.mem_map_of_mem hitem)
  · intro hfits
    exact ⟨_, cfgRecoverWithJson_saved hbuf (lineText_cfgItems hcfg hclean) hfits, rfl,
      parseCfgLine_cfgItems hint hcfg hclean⟩

/-- A box with a text file of two lines is restored. -/
theorem restores_lines :
    Restores cutToInt (boxWithFile [104, 105, 10, 13]) (List.replicate lineBufsz 0) := by
  have hfits : (boxItems [104, 105, 10, 13]).all
      (fun item => decide ((cJSONPrintUnformatted item).length ≤ 10243)) = true := by decide +kernel
  have hbytes : ([104, 105, 10, 13] : List UInt8).all (fun b => decide (b ≠ 0 ∧ b ≠ 1 ∧ b ≠ 2)) =
    true := by decide
  have hcfg : ∀ type n, Plain ((boxWithFile [104, 105, 10, 13]).cfg type n) := fun _ _ => by
    simp only [boxWithFile, Plain, PlainMembers]
  refine (restores_iff cutToInt_intText (List.length_replicate ..) hcfg ?_).mpr fun item hitem => ?_
  · intro path content hfile b hb
    obtain ⟨-, hcontent⟩ := Option.ite_none_right_eq_some.mp hfile
    obtain rfl := Option.some.inj hcontent
    exact of_decide_eq_true (List.all_eq_true.mp hbytes b hb)
  · exact of_decide_eq_true (List.all_eq_true.mp hfits item (mem_boxItems hitem))

end DasEdge.Board
