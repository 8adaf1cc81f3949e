import Criterion.Proofs.Consistency
import Criterion.Proofs.Footprint
import Criterion.Proofs.Gap
import Criterion.Proofs.Outline
import Criterion.Proofs.Rendering

/-! Catalogs listed as text. Ids, names and expressions stand with tabs between them, and line feeds stand between
the records. Any text is a name, so a name may hold tabs and line feeds of its own, and so may an expression. But no
expression goes on with a line feed and a number where it could have ended, so an expression ends where the next record
begins. Only names can make two catalogs look alike, and only with a tab. -/
namespace Criterion

section Expressions

open Grammar

variable {text gap : String} {d : Char} {cs : List Char} {e : Expr}

/-- A text that begins with a digit begins with a number, if it can be read. -/
theorem Token.exists_number_of_tokenize {tokens : List Token} (hd : d.isDigit = true)
    (h : Token.tokenize (String.ofList (d :: cs)) = .ok tokens) :
    ∃ t later, tokens = t :: later ∧ t.kind = .number := by
  have hspace : Token.isSpace d = false := Token.isSpace_of_isWordChar (Token.isWordChar_of_isDigit hd)
  rw [Token.tokenize, String.toList_ofList, Token.scanFrom_lexeme hspace (Token.scan?_digit hd)] at h
  obtain ⟨later, -, htokens⟩ := bind_eq_ok_iff.mp h
  exact ⟨_, later, (Except.ok.inj htokens).symm, rfl⟩

theorem Grammar.holding_of_parse {ls : List Lexeme} (h : Expr.parse ls = .ok e) :
    (Outline.expecting 0).after? ls = some (.holding 0) :=
  Outline.after?_of_phrase (phrase_of_derives (sentence_of_parse h).1) 0

/-- No expression goes on with spaces and a number where it could have ended. -/
theorem Expr.not_compiles_number_behind (hd : d.isDigit = true) (hgap : Token.Blank gap) (hne : gap ≠ "")
    (h : compile text = .ok e) (other : Expr) : compile (text ++ gap ++ String.ofList (d :: cs)) ≠ .ok other := by
  intro hother
  obtain ⟨front, hfront, hparse⟩ := compile_eq_ok_iff.mp h
  obtain ⟨tokens, htokens, hwhole⟩ := compile_eq_ok_iff.mp hother
  rw [Token.tokenize_append_spaces hgap hne hfront] at htokens
  obtain ⟨behind, hbehind, rfl⟩ := map_eq_ok_iff.mp htokens
  cases hback : Token.tokenize (String.ofList (d :: cs)) with
  | error e =>
    rw [hback] at hbehind
    contradiction
  | ok later =>
    rw [hback] at hbehind
    obtain rfl := Except.ok.inj hbehind
    obtain ⟨t, rest, rfl, hkind⟩ := Token.exists_number_of_tokenize hd hback
    have hheld := holding_of_parse hwhole
    rw [List.map_append, Outline.after?_append, holding_of_parse hparse, Option.bind_some, List.map_cons, List.map_cons,
      Outline.after?] at hheld
    have hshifted : ((t.shift (text ++ gap).utf8ByteSize).toLexeme).kind = .number := hkind
    rw [hshifted] at hheld
    contradiction

end Expressions

section Saving

variable {record : Record} {disk : Disk}

/-- The record is what saving a text has answered. -/
def Record.Saved (record : Record) : Prop :=
  ∃ (r : Registry) (name text : String) (disk : Disk), (r.save name text disk).answer = .ok record

theorem Shelf.eq_numbered_of_insert {s : Shelf} {d : Draft} (h : (s.insert d disk).answer = .ok record) :
    record = d.numbered s.catalog.nextId := by
  obtain ⟨file, c⟩ := s
  cases file with
  | none => exact (Except.ok.inj h).symm
  | some path =>
    cases hw : disk.write? path (c.insert d).2.toSnapshot.encode with
    | none =>
      rw [insert_of_unwritable hw] at h
      contradiction
    | some written =>
      rw [insert_of_written hw] at h
      exact (Except.ok.inj h).symm

/-- A record that a registry puts into its file. -/
theorem Record.saved_of_written {path name text : String} {limit : Nat} {old : Catalog} {c : Compiled} {written : Disk}
    (hc : Registry.compileWithin limit text = .ok c)
    (hw : disk.write? path (old.insert ⟨name, c.expression, c.encoded⟩).2.toSnapshot.encode = some written) :
    Record.Saved ((⟨name, c.expression, c.encoded⟩ : Draft).numbered old.nextId) := by
  have hcompile : Registry.compile ⟨⟨some path, old⟩, limit⟩ text = .ok c := hc
  refine ⟨⟨⟨some path, old⟩, limit⟩, name, text, disk, ?_⟩
  rw [Registry.save_of_compile hcompile, Registry.lift, Shelf.insert_of_written hw]
  rfl

/-- The file that a catalog was written to has the records of the catalog. -/
theorem Shelf.mem_of_written {path : String} {c : Catalog} {written : Disk} {shelf : Shelf}
    (hw : disk.write? path c.toSnapshot.encode = some written) (hload : load path written = .ok shelf)
    (h : record ∈ shelf.catalog.records) : record ∈ c.records := by
  have hopens := opens_of_load hload
  rw [Disk.content_of_write? hw] at hopens
  generalize htext : (.ok c.toSnapshot.encode : Except ReadFailure String) = content, shelf.catalog = opened at hopens h
  cases hopens with
  | missing => contradiction
  | text hdecode hopened =>
    obtain rfl := Except.ok.inj htext
    obtain rfl := Option.some.inj ((Snapshot.decode?_encode c.toSnapshot).symm.trans hdecode)
    exact (Catalog.mem_ofSnapshot hopened).mp h

theorem Record.compiled_of_saved (h : record.Saved) :
    ∃ tree, Expr.compile record.expression = .ok tree ∧ record.encoded = tree.encode := by
  obtain ⟨r, name, text, disk, hsave⟩ := h
  cases hc : r.compile text with
  | error e =>
    rw [Registry.save, hc] at hsave
    contradiction
  | ok c =>
    obtain ⟨htree, hencoded⟩ := Registry.compile_ok hc
    rw [Registry.save_of_compile hc] at hsave
    obtain rfl := Shelf.eq_numbered_of_insert (mapError_eq_ok_iff.mp hsave)
    exact ⟨c.tree, htree, hencoded⟩

end Saving

namespace Command.Run

/-- The lines of the records, each behind a line feed. -/
def following (records : List Record) : List Char := records.flatMap fun r => '\n' :: (listLine r).toList

/-- The records agree up to two with the same id, of whose names one goes on with a tab where the other one ends. -/
inductive Blurred : List Record → List Record → Prop
  | here {r r' : Record} (rest rest' : List Record) (hid : r.id = r'.id)
    (hname : (∃ more, r'.name = r.name ++ "\t" ++ more) ∨ ∃ more, r.name = r'.name ++ "\t" ++ more) :
    Blurred (r :: rest) (r' :: rest')
  | further (r : Record) {rest rest' : List Record} (h : Blurred rest rest') : Blurred (r :: rest) (r :: rest')

section Lines

variable {r : Record} {records : List Record}

theorem toList_listLine (r : Record) :
    (listLine r).toList = Nat.toDigits 10 r.id.toNat ++ '\t' :: (r.name.toList ++ '\t' :: r.expression.toList) := by
  simp [listLine, Decimal.toList_text]

theorem following_cons (r : Record) (records : List Record) :
    following (r :: records) = '\n' :: (Nat.toDigits 10 r.id.toNat ++
      '\t' :: (r.name.toList ++ '\t' :: (r.expression.toList ++ following records))) := by
  rw [following, List.flatMap_cons, toList_listLine]
  simp [following]

/-- Behind a line feed there is the first digit of an id. -/
theorem exists_digit_following (r : Record) (records : List Record) :
    ∃ d cs, following (r :: records) = '\n' :: d :: cs ∧ d.isDigit = true := by
  obtain ⟨d, ds, hdigits, hdigit⟩ := Decimal.exists_toDigits_eq_cons r.id.toNat
  rw [following_cons, hdigits]
  exact ⟨d, _, rfl, hdigit⟩

theorem following_eq (r : Record) (records : List Record) :
    following (r :: records) = '\n' :: (listOutput .text (r :: records)).toList := by
  rw [listOutput, String.toList_intercalate, List.map_map, List.map_cons]
  refine Eq.trans ?_ (congrArg ('\n' :: ·) (Text.intercalate_cons '\n' _ _).symm)
  rw [List.flatMap_map]
  rfl

theorem listOutput_ne_empty (r : Record) (records : List Record) : listOutput .text (r :: records) ≠ "" := by
  intro hempty
  have hlist := following_eq r records
  rw [following_cons, hempty] at hlist
  simp at hlist

theorem following_of_listOutput {records' : List Record} (h : listOutput .text records = listOutput .text records') :
    following records = following records' := by
  cases records with
  | nil =>
    cases records' with
    | nil => rfl
    | cons r' rest' => exact absurd h.symm (listOutput_ne_empty r' rest')
  | cons r rest =>
    cases records' with
    | nil => exact absurd h (listOutput_ne_empty r rest)
    | cons r' rest' => rw [following_eq, following_eq, h]

/-- What follows an expression in the listing is not a part of a longer one. -/
theorem eq_nil_of_following {text longer : String} {e f : Expr} {more : List Char} {rest rest' : List Record}
    (htext : Expr.compile text = .ok e) (hlonger : Expr.compile longer = .ok f)
    (hmore : longer.toList = text.toList ++ more) (h : following rest = more ++ following rest') : more = [] := by
  cases more with
  | nil => rfl
  | cons c more =>
    exfalso
    cases rest with
    | nil => simp [following] at h
    | cons r rest =>
      obtain ⟨d, cs, hline, hdigit⟩ := exists_digit_following r rest
      rw [hline] at h
      obtain ⟨hfeed, hbehind⟩ := List.cons.inj h
      subst hfeed
      cases more with
      | nil =>
        -- The longer expression would end with the line feed, and another one would follow in the place of a digit.
        cases rest' with
        | nil => simp [following] at hbehind
        | cons r' rest' =>
          rw [following_cons] at hbehind
          have hfeed : d = '\n' := (List.cons.inj hbehind).1
          subst hfeed
          contradiction
      | cons d' more =>
        obtain rfl : d = d' := (List.cons.inj hbehind).1
        have hjoined : longer = text ++ "\n" ++ String.ofList (d :: more) := by
          rw [← String.toList_inj, hmore]
          simp
        exact Expr.not_compiles_number_behind hdigit (by decide) (by decide) htext f (hjoined ▸ hlonger)

theorem expression_unique {text other : String} {e f : Expr} {rest rest' : List Record}
    (htext : Expr.compile text = .ok e) (hother : Expr.compile other = .ok f)
    (h : text.toList ++ following rest = other.toList ++ following rest') :
    text = other ∧ following rest = following rest' := by
  rcases List.append_eq_append_iff.mp h with ⟨more, hmore, hrest⟩ | ⟨more, hmore, hrest⟩
  · obtain rfl := eq_nil_of_following htext hother hmore hrest
    exact ⟨String.toList_inj.mp (by simpa using hmore.symm), hrest⟩
  · obtain rfl := eq_nil_of_following hother htext hmore hrest
    exact ⟨String.toList_inj.mp (by simpa using hmore), hrest.symm⟩

/-- A name ends with the first tab behind it, unless it goes on with that tab. -/
theorem name_unique {name other : String} {x y : List Char}
    (h : name.toList ++ '\t' :: x = other.toList ++ '\t' :: y) :
    name = other ∧ x = y ∨ (∃ more, other = name ++ "\t" ++ more) ∨ ∃ more, name = other ++ "\t" ++ more := by
  have hlonger {short long : String} {c : Char} {more u v : List Char} (hlong : long.toList = short.toList ++ c :: more)
      (htab : '\t' :: u = c :: more ++ '\t' :: v) : ∃ more, long = short ++ "\t" ++ more := by
    obtain ⟨rfl, -⟩ := List.cons.inj htab
    exact ⟨String.ofList more, String.toList_inj.mp (by simp [hlong])⟩
  rcases List.append_eq_append_iff.mp h with ⟨more, hmore, hrest⟩ | ⟨more, hmore, hrest⟩
  · cases more with
    | nil => exact .inl ⟨String.toList_inj.mp (by simpa using hmore.symm), (List.cons.inj hrest).2⟩
    | cons c more => exact .inr (.inl (hlonger hmore hrest))
  · cases more with
    | nil => exact .inl ⟨String.toList_inj.mp (by simpa using hmore), (List.cons.inj hrest).2.symm⟩
    | cons c more => exact .inr (.inr (hlonger hmore hrest))

theorem id_unique {r r' : Record} {x y : List Char}
    (h : Nat.toDigits 10 r.id.toNat ++ '\t' :: x = Nat.toDigits 10 r'.id.toNat ++ '\t' :: y) :
    r.id = r'.id ∧ x = y := by
  have htab (n : Nat) : '\t' ∉ Nat.toDigits 10 n := fun hmem => absurd (Decimal.isDigit_of_mem hmem) (by decide)
  obtain ⟨hdigits, hrest⟩ := Text.separated_unique (htab _) (htab _) h
  have hid : r.id.toNat = r'.id.toNat := by
    rw [← Decimal.ofDigits_toDigits r.id.toNat, hdigits, Decimal.ofDigits_toDigits]
  exact ⟨UInt64.toNat_inj.mp hid, hrest⟩

theorem eq_or_blurred {records records' : List Record} (hsaved : ∀ r ∈ records, r.Saved)
    (hsaved' : ∀ r ∈ records', r.Saved) (h : following records = following records') :
    records = records' ∨ Blurred records records' := by
  induction records generalizing records' with
  | nil =>
    cases records' with
    | nil => exact .inl rfl
    | cons => contradiction
  | cons r rest ih =>
    cases records' with
    | nil => contradiction
    | cons r' rest' =>
      obtain ⟨hr, hrest⟩ := List.forall_mem_cons.mp hsaved
      obtain ⟨hr', hrest'⟩ := List.forall_mem_cons.mp hsaved'
      obtain ⟨tree, hcompiled, hencoded⟩ := Record.compiled_of_saved hr
      obtain ⟨tree', hcompiled', hencoded'⟩ := Record.compiled_of_saved hr'
      rw [following_cons, following_cons] at h
      obtain ⟨hid, hbehind⟩ := id_unique (List.cons.inj h).2
      rcases name_unique hbehind with ⟨hname, hexpressions⟩ | hname
      · obtain ⟨hexpression, hlater⟩ := expression_unique hcompiled hcompiled' hexpressions
        have hencodings : r.encoded = r'.encoded := by
          rw [hexpression] at hcompiled
          obtain rfl := Except.ok.inj (hcompiled.symm.trans hcompiled')
          rw [hencoded, hencoded']
        obtain rfl : r = r' := by
          cases r
          cases r'
          simp only [Record.mk.injEq]
          exact ⟨hid, hname, hexpression, hencodings⟩
        rcases ih hrest hrest' hlater with heq | hblurred
        · exact .inl (congrArg (r :: ·) heq)
        · exact .inr (.further r hblurred)
      · exact .inr (.here rest rest' hid hname)

theorem exists_tab_of_blurred {records' : List Record} (h : Blurred records records') :
    ∃ r ∈ records ++ records', '\t' ∈ r.name.toList := by
  induction h with
  | @here r r' rest rest' hid hname =>
    rcases hname with ⟨more, hlonger⟩ | ⟨more, hlonger⟩
    · exact ⟨r', by simp, by simp [hlonger]⟩
    · exact ⟨r, by simp, by simp [hlonger]⟩
  | further r h ih =>
    obtain ⟨longer, hlonger, htab⟩ := ih
    rw [List.mem_append] at hlonger
    refine ⟨longer, ?_, htab⟩
    rw [List.mem_append, List.mem_cons, List.mem_cons]
    exact hlonger.imp .inr .inr

end Lines

section Columns

/-- The lines of a text; a text without a character has none. -/
def lines (text : String) : List String := if text = "" then [] else Text.pieces '\n' text

/-- What stands in a line before, between and behind its tabs. -/
def columns (line : String) : List String := Text.pieces '\t' line

/-- What the listing says of a record. -/
def entry (r : Record) : List String := [Decimal.text r.id.toNat, r.name, r.expression]

/-- The text has neither a tab nor a line feed. -/
def Flat (text : String) : Prop := '\t' ∉ text.toList ∧ '\n' ∉ text.toList

variable {r : Record} {records : List Record}

theorem listLine_eq (r : Record) : listLine r = "\t".intercalate (entry r) := by
  rw [← String.toList_inj]
  simp [listLine, entry]

theorem mem_pieces_of_mem_lines {line text : String} (h : line ∈ lines text) : line ∈ Text.pieces '\n' text := by
  unfold lines at h
  split at h
  · contradiction
  · exact h

theorem flat_id (r : Record) : Flat (Decimal.text r.id.toNat) := by
  have hdigit {c : Char} (hc : c ∈ (Decimal.text r.id.toNat).toList) : c.isDigit = true :=
    Decimal.isDigit_of_mem (Decimal.toList_text _ ▸ hc)
  exact ⟨fun htab => absurd (hdigit htab) (by decide), fun hfeed => absurd (hdigit hfeed) (by decide)⟩

theorem flat_entry (h : Flat r.name ∧ Flat r.expression) : ∀ text ∈ entry r, Flat text := by
  simpa [entry] using ⟨flat_id r, h⟩

theorem columns_listLine (h : Flat r.name ∧ Flat r.expression) : columns (listLine r) = entry r := by
  rw [listLine_eq]
  exact Text.pieces_intercalate (by simp [entry]) fun text htext => (flat_entry h text htext).1

theorem lines_listOutput (h : ∀ r ∈ records, Flat r.name ∧ Flat r.expression) :
    lines (listOutput .text records) = records.map listLine := by
  cases records with
  | nil => rfl
  | cons r rest =>
    have hfeed : ∀ line ∈ (r :: rest).map listLine, '\n' ∉ line.toList := by
      intro line hline
      obtain ⟨s, hs, rfl⟩ := List.mem_map.mp hline
      obtain ⟨⟨-, hname⟩, -, hexpression⟩ := h s hs
      simp [listLine, (flat_id s).2, hname, hexpression]
    rw [lines, if_neg (listOutput_ne_empty r rest)]
    exact Text.pieces_intercalate (by simp) hfeed

/-- Each record has a line with its id, its name and its expression exactly if no name and no expression has a tab or
a line feed. -/
theorem columns_lines_iff : (lines (listOutput .text records)).map columns = records.map entry ↔
    ∀ r ∈ records, Flat r.name ∧ Flat r.expression := by
  constructor
  · intro h r hr
    obtain ⟨line, hline, hcolumns⟩ := List.mem_map.mp (h ▸ List.mem_map_of_mem hr)
    have hpiece := Text.mem_pieces.mp (mem_pieces_of_mem_lines hline)
    have hflat {text : String} (htext : text ∈ entry r) : Flat text := by
      have hcolumn := Text.mem_pieces.mp (hcolumns ▸ htext)
      exact ⟨Text.not_mem_of_mem_split hcolumn,
        fun hfeed => Text.not_mem_of_mem_split hpiece (Text.mem_of_mem_split hcolumn hfeed)⟩
    exact ⟨hflat (by simp [entry]), hflat (by simp [entry])⟩
  · intro h
    rw [lines_listOutput h, List.map_map]
    refine List.map_congr_left fun r hr => ?_
    rw [Function.comp_apply, columns_listLine (h r hr)]

end Columns

end Command.Run

namespace Invocation

open Command.Run

/-- Only commands have written the file, and it did not exist before. -/
inductive Worked (path : String) : Disk → Prop
  | fresh {disk : Disk} (h : disk.read path = .error .missing) : Worked path disk
  | ran {disk : Disk} (h : Worked path disk) (i : Invocation) (s : Settings) (input : Option String)
    (hi : i.storeName s = path) : Worked path (i.run s input disk).2

/-- The command lists the records of a file as text, and each of them was saved. -/
structure Lists (i : Invocation) (s : Settings) (disk : Disk) (records : List Record) : Prop where
  command : i.command = .list
  format : i.format = .text
  opened : ∃ shelf, Shelf.load (i.storeName s) disk = .ok shelf ∧ shelf.catalog.records = records
  saved : ∀ r ∈ records, r.Saved

variable {i i' : Invocation} {s s' : Settings} {input input' : Option String} {disk disk' : Disk}
  {records records' : List Record}

/-- Every record in a file that only commands have written was saved. -/
theorem saved_of_worked {path : String} {shelf : Shelf} (h : Worked path disk)
    (hload : Shelf.load path disk = .ok shelf) :
    ∀ r ∈ shelf.catalog.records, r.Saved := by
  induction h generalizing shelf with
  | fresh h =>
    rw [Shelf.load, h] at hload
    obtain rfl := Except.ok.inj hload
    intro r hr
    contradiction
  | @ran disk h i s input hi ih =>
    subst hi
    cases hcommand : i.command with
    | save name expression =>
      rcases run_save_cases s input disk hcommand with ⟨e, left, hrun, hleft⟩ | ⟨old, c, written, hold, hc, hw, hrun⟩
      · rw [hrun] at hload
        obtain rfl := Shelf.eq_of_load hleft hload
        exact ih hload
      · rw [hrun] at hload
        intro r hr
        rcases Catalog.mem_of_mem_place (Shelf.mem_of_written hw hload hr) with rfl | hr
        · exact Record.saved_of_written hc hw
        · exact ih hold r hr
    | remove id =>
      rcases run_remove_cases s input disk hcommand with ⟨e, left, hrun, hleft⟩ | ⟨old, written, hold, -, hw, hrun⟩
      · rw [hrun] at hload
        obtain rfl := Shelf.eq_of_load hleft hload
        exact ih hload
      · rw [hrun] at hload
        intro r hr
        exact ih hold r (List.mem_filter.mp (Shelf.mem_of_written hw hload hr)).1
    | _ =>
      rw [run_of_not_writes (by rw [hcommand]; exact not_false)] at hload
      exact ih hload

theorem run_lists (h : i.Lists s disk records) : (i.run s input disk).1 = .ok (listOutput .text records) := by
  obtain ⟨shelf, hload, rfl⟩ := h.opened
  rw [run, h.command]
  dsimp only
  rw [openRegistry_of_load hload, andThen, h.format]
  rfl

section Building

variable {path name expression : String} {c : Compiled} {old : Catalog}

/-- Commands have made the catalog in the file, and it can be written again. -/
structure Built (path : String) (disk : Disk) (catalog : Catalog) : Prop where
  worked : Worked path disk
  opened : Shelf.load path disk = .ok ⟨some path, catalog⟩
  ordered : catalog.Ordered
  writable : disk.Writable path

theorem built_fresh (h : disk.read path = .error .missing) (hw : disk.Writable path) : Built path disk .empty :=
  ⟨.fresh h, Shelf.load_eq_ok_iff.mpr ⟨rfl, by rw [h]; exact .missing⟩, Catalog.ordered_empty, hw⟩

theorem built_save (h : Built path disk old) (hi : i.command = .save name expression) (hpath : i.storeName s = path)
    (hc : Registry.compileWithin s.maxInputLength expression = .ok c)
    (hfits : (old.insert ⟨name, c.expression, c.encoded⟩).2.Fits) (input : Option String) :
    Built path (i.run s input disk).2 (old.insert ⟨name, c.expression, c.encoded⟩).2 := by
  subst hpath
  have hordered := Catalog.ordered_insert h.ordered _ hfits
  obtain ⟨written, hwritten⟩ := h.writable (old.insert ⟨name, c.expression, c.encoded⟩).2.toSnapshot.encode
  have hrun : (i.run s input disk).2 = written :=
    congrArg Prod.snd (run_save_of_written hi h.opened hc hwritten)
  refine ⟨.ran h.worked i s input rfl, ?_, hordered, ?_⟩
  · rw [hrun]
    exact Shelf.load_of_read hordered (Disk.read_of_write? (Shelf.not_hides_of_load h.opened) hwritten)
  · rw [hrun]
    exact Disk.writable_of_write? h.writable hwritten

theorem lists_of_built (h : Built (i.storeName s) disk old) (hi : i.command = .list) (hformat : i.format = .text) :
    i.Lists s disk old.records :=
  ⟨hi, hformat, ⟨_, h.opened, rfl⟩, saved_of_worked h.worked h.opened⟩

/-- The disk after saving with the default settings. -/
def saving (name expression : String) (disk : Disk) : Disk :=
  (run { command := .save name expression } {} none disk).2

theorem built_empty : Built "expreval-store.json" {} .empty := built_fresh rfl fun _ => ⟨_, rfl⟩

theorem built_saving {expression : String} {c : Compiled} {old : Catalog} (h : Built "expreval-store.json" disk old)
    (hc : Registry.compileWithin Registry.defaultLimit expression = .ok c) (name : String)
    (hfits : (old.insert ⟨name, c.expression, c.encoded⟩).2.Fits) :
    Built "expreval-store.json" (saving name expression disk) (old.insert ⟨name, c.expression, c.encoded⟩).2 := by
  have hsave : command { command := .save name expression } = .save name expression := rfl
  have hpath : storeName { command := .save name expression } {} = "expreval-store.json" := rfl
  exact built_save h hsave hpath hc hfits none

theorem lists_built {old : Catalog} (h : Built "expreval-store.json" disk old) :
    Lists { command := .list } {} disk old.records :=
  lists_of_built h rfl rfl

end Building

/-- Catalogs that are listed alike are the same, unless a tab in a name stands where another name ends; without tabs in
the names they are the same, whatever the expressions. The lines and their columns are the records and their entries
exactly if no name and no expression has a tab or a line feed. -/
theorem listed_alike (h : i.Lists s disk records) (h' : i'.Lists s' disk' records') :
    ∃ output output', (i.run s input disk).1 = .ok output ∧ (i'.run s' input' disk').1 = .ok output' ∧
      (output = output' → records = records' ∨ Blurred records records') ∧
      (output = output' → (∀ r ∈ records ++ records', '\t' ∉ r.name.toList) → records = records') ∧
      ((lines output).map columns = records.map entry ↔ ∀ r ∈ records, Flat r.name ∧ Flat r.expression) := by
  have halike (heq : listOutput .text records = listOutput .text records') :
      records = records' ∨ Blurred records records' :=
    eq_or_blurred h.saved h'.saved (following_of_listOutput heq)
  refine ⟨_, _, run_lists h, run_lists h', halike, fun heq htabless => (halike heq).resolve_right fun hblurred => ?_,
    columns_lines_iff⟩
  obtain ⟨r, hr, htab⟩ := exists_tab_of_blurred hblurred
  exact htabless r hr htab

/-- The tab between two columns may be the last character of a name or the first one of an expression. -/
theorem listed_alike_blurred :
    let list : Invocation := { command := .list }
    let encoded := Expr.encode (.atom (.variable "z"))
    let one : List Record := [⟨1, "n", "\tz", encoded⟩]
    let other : List Record := [⟨1, "n\t", "z", encoded⟩]
    list.Lists {} (saving "n" "\tz" {}) one ∧ list.Lists {} (saving "n\t" "z" {}) other ∧ Blurred one other := by
  intro list encoded one other
  have hspaced : Registry.compileWithin Registry.defaultLimit "\tz" = .ok ⟨"\tz", .atom (.variable "z"), encoded⟩ :=
    eq_ok_of_toOption (by decide +kernel)
  have hplain : Registry.compileWithin Registry.defaultLimit "z" = .ok ⟨"z", .atom (.variable "z"), encoded⟩ :=
    eq_ok_of_toOption (by decide +kernel)
  have hone : list.Lists {} (saving "n" "\tz" {}) one :=
    lists_built (built_saving built_empty hspaced "n" (by decide))
  have hother : list.Lists {} (saving "n\t" "z" {}) other :=
    lists_built (built_saving built_empty hplain "n\t" (by decide))
  obtain ⟨output, output', hrun, hrun', halike, -, -⟩ := @listed_alike list list {} {} none none _ _ _ _ hone hother
  have hsame : output = output' := by
    rw [run_lists hone] at hrun
    rw [run_lists hother] at hrun'
    obtain rfl := Except.ok.inj hrun
    obtain rfl := Except.ok.inj hrun'
    decide
  exact ⟨hone, hother, (halike hsame).resolve_left (by decide)⟩

/-- One record is listed like two others. -/
theorem one_record_listed_as_two :
    let list : Invocation := { command := .list }
    let one := saving "a\tx\n2\tb" "y" {}
    let two := saving "b" "y" (saving "a" "x" {})
    ∃ records records' : List Record, list.Lists {} one records ∧ list.Lists {} two records' ∧
      records.length = 1 ∧ records'.length = 2 ∧
      (list.run {} none one).1 = .ok "1\ta\tx\n2\tb\ty" ∧ (list.run {} none two).1 = .ok "1\ta\tx\n2\tb\ty" := by
  intro list one two
  have hx : Registry.compileWithin Registry.defaultLimit "x" =
      .ok ⟨"x", .atom (.variable "x"), Expr.encode (.atom (.variable "x"))⟩ :=
    eq_ok_of_toOption (by decide +kernel)
  have hy : Registry.compileWithin Registry.defaultLimit "y" =
      .ok ⟨"y", .atom (.variable "y"), Expr.encode (.atom (.variable "y"))⟩ :=
    eq_ok_of_toOption (by decide +kernel)
  have hone := built_saving built_empty hy "a\tx\n2\tb" (by decide)
  have htwo := built_saving (built_saving built_empty hx "a" (by decide)) hy "b" (by decide)
  refine ⟨_, _, lists_built hone, lists_built htwo, rfl, rfl, ?_, ?_⟩
  · rw [run_lists (lists_built hone)]
    decide
  · rw [run_lists (lists_built htwo)]
    decide

end Invocation

end Criterion
