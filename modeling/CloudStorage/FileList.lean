import CloudStorage.Containment
import CloudStorage.Refine
import CloudStorage.Service

/-!
# The file list (`Service::GenerateFileList`, `Service::ListFiles`)

The page is a fixed markup with slots for what comes from the records. What
stands in a slot holds no markup; the links stand for the keys of the table;
and the order of the items depends on the records alone.
-/

namespace CloudStorage
open Posix Interact

/-! ### Escaped text -/

def ampersand : Byte := 38

/-- Bytes that open or close an element or an attribute. -/
def markupBytes : Bytes := lit "<>\"'"

/-- The entities of `HtmlEscape`, each after what it stands for. -/
def entities : List (Byte × Bytes) :=
  [(38, lit "&amp;"), (60, lit "&lt;"), (62, lit "&gt;"), (34, lit "&quot;"), (39, lit "&#39;")]

def entityAt (text : Bytes) : Option (Byte × Bytes) :=
  entities.find? fun entity => entity.2.isPrefixOf text

/-- The entities are replaced from left to right; the number counts the bytes of an entity
that are still to be passed over. -/
def unescapeFrom : Nat → Bytes → Bytes
  | _, [] => []
  | skip + 1, _ :: rest => unescapeFrom skip rest
  | 0, b :: rest =>
    match entityAt (b :: rest) with
    | some entity => entity.1 :: unescapeFrom (entity.2.length - 1) rest
    | none => b :: unescapeFrom 0 rest

def htmlUnescape (text : Bytes) : Bytes := unescapeFrom 0 text

/-- Text that stays text where it stands: no markup, and an `&` only at an entity. -/
structure Inert (text : Bytes) : Prop where
  plain : ∀ b ∈ text, b ∉ markupBytes
  entity : ∀ rest, rest <:+ text → rest.head? = some ampersand → ∃ e ∈ entities, e.2 <+: rest

theorem Inert.nil : Inert [] :=
  ⟨fun _ h => (nomatch h), fun rest h hhead => by
    rw [List.suffix_nil.mp h] at hhead
    cases hhead⟩

theorem Inert.append {a b : Bytes} (ha : Inert a) (hb : Inert b) : Inert (a ++ b) := by
  constructor
  · intro c hc
    rcases List.mem_append.mp hc with hc | hc
    · exact ha.plain c hc
    · exact hb.plain c hc
  · rintro rest ⟨before, hsplit⟩ hhead
    rcases List.append_eq_append_iff.mp hsplit with ⟨more, hbefore, hrest⟩ | ⟨more, hbefore, hrest⟩
    · -- the suffix begins within `a`
      subst hrest
      cases more with
      | nil => exact hb.entity b (List.suffix_refl b) hhead
      | cons c more =>
        obtain ⟨e, he, hprefix⟩ := ha.entity (c :: more) ⟨before, hbefore.symm⟩ hhead
        exact ⟨e, he, hprefix.trans (List.prefix_append ..)⟩
    · exact hb.entity rest ⟨more, hrest.symm⟩ hhead

theorem Inert.flatMap {α : Type} {f : α → Bytes} (hf : ∀ a, Inert (f a)) (l : List α) :
    Inert (l.flatMap f) := by
  induction l with
  | nil => exact Inert.nil
  | cons a l ih =>
    rw [List.flatMap_cons]
    exact (hf a).append ih

theorem Inert.single {b : Byte} (hplain : b ∉ markupBytes) (hamp : b ≠ ampersand) : Inert [b] := by
  constructor
  · intro c hc
    rw [List.mem_singleton.mp hc]
    exact hplain
  · intro rest hrest hhead
    rcases List.suffix_cons_iff.mp hrest with rfl | hnil
    · exact absurd (Option.some.inj hhead) hamp
    · rw [List.suffix_nil.mp hnil] at hhead
      cases hhead

/-- `HtmlEscape` of one byte. -/
def escapeByte (b : Byte) : Bytes := htmlEscape [b]

theorem htmlEscape_eq (text : Bytes) : htmlEscape text = text.flatMap escapeByte := by
  refine List.flatMap_congr fun b _ => ?_
  simp only [escapeByte, htmlEscape, List.flatMap_cons, List.flatMap_nil, List.append_nil]

/-- A byte is escaped by its entity, or stands for itself. -/
theorem escapeByte_cases (b : Byte) :
    (b, escapeByte b) ∈ entities ∨
      b ∉ markupBytes ∧ b ≠ ampersand ∧ escapeByte b = [b] := by
  by_cases hamp : b = 38
  · subst hamp
    exact .inl (by decide)
  by_cases hlt : b = 60
  · subst hlt
    exact .inl (by decide)
  by_cases hgt : b = 62
  · subst hgt
    exact .inl (by decide)
  by_cases hquot : b = 34
  · subst hquot
    exact .inl (by decide)
  by_cases hapos : b = 39
  · subst hapos
    exact .inl (by decide)
  refine .inr ⟨?_, hamp, ?_⟩
  · have hbytes : markupBytes = [60, 62, 34, 39] := by decide
    simp only [hbytes, List.mem_cons, List.not_mem_nil, hlt, hgt, hquot, hapos, or_self,
      not_false_eq_true]
  · simp only [escapeByte, htmlEscape, List.flatMap_cons, List.flatMap_nil, hamp, hlt, hgt, hquot,
      hapos, if_false, List.append_nil]

theorem entities_head : ∀ e ∈ entities, e.2 = ampersand :: e.2.tail := by decide

theorem entities_inert : ∀ e ∈ entities, Inert e.2 := by
  have hbytes : ∀ e ∈ entities, (∀ b ∈ e.2, b ∉ markupBytes) ∧ ampersand ∉ e.2.tail := by
    decide +kernel
  intro e he
  obtain ⟨hplain, htail⟩ := hbytes e he
  refine ⟨hplain, fun rest hrest hhead => ?_⟩
  rw [entities_head e he] at hrest
  rcases List.suffix_cons_iff.mp hrest with rfl | hrest
  · exact ⟨e, he, [], (List.append_nil _).trans (entities_head e he)⟩
  · exact absurd (hrest.subset (List.mem_of_head? hhead)) htail

theorem htmlEscape_inert (text : Bytes) : Inert (htmlEscape text) := by
  rw [htmlEscape_eq]
  refine Inert.flatMap (fun b => ?_) text
  rcases escapeByte_cases b with hentity | ⟨hplain, hamp, heq⟩
  · exact entities_inert _ hentity
  · rw [heq]
    exact Inert.single hplain hamp

theorem htmlEscape_unchanged {text : Bytes}
    (h : ∀ b ∈ text, b ∉ markupBytes ∧ b ≠ ampersand) : htmlEscape text = text := by
  rw [htmlEscape_eq]
  have hsame : text.flatMap escapeByte = text.flatMap fun b => [b] := by
    refine List.flatMap_congr fun b hb => ?_
    rcases escapeByte_cases b with hentity | ⟨-, -, heq⟩
    · obtain ⟨hplain, hamp⟩ := h b hb
      have hspecial : ∀ e ∈ entities, e.1 ∈ markupBytes ∨ e.1 = ampersand := by decide
      exact absurd (hspecial _ hentity) (not_or.mpr ⟨hplain, hamp⟩)
    · exact heq
  rw [hsame, List.flatMap_singleton']

theorem unescapeFrom_append (skipped rest : Bytes) :
    unescapeFrom skipped.length (skipped ++ rest) = unescapeFrom 0 rest := by
  induction skipped with
  | nil => rfl
  | cons b skipped ih => exact ih

theorem entityAt_append : ∀ e ∈ entities, ∀ rest, entityAt (e.2 ++ rest) = some e := by
  intro e he rest
  simp only [entities, List.mem_cons, List.not_mem_nil, or_false] at he
  rcases he with rfl | rfl | rfl | rfl | rfl <;> rfl

theorem entityAt_plain {b : Byte} (hamp : b ≠ ampersand) (rest : Bytes) :
    entityAt (b :: rest) = none := by
  refine List.find?_eq_none.mpr fun e he hprefix => ?_
  obtain ⟨more, hmore⟩ := List.isPrefixOf_iff_prefix.mp hprefix
  rw [entities_head e he, List.cons_append, List.cons.injEq] at hmore
  exact hamp hmore.1.symm

theorem htmlUnescape_htmlEscape (text : Bytes) : htmlUnescape (htmlEscape text) = text := by
  rw [htmlEscape_eq, htmlUnescape]
  induction text with
  | nil => rfl
  | cons b text ih =>
    rw [List.flatMap_cons]
    rcases escapeByte_cases b with hentity | ⟨-, hamp, heq⟩
    · have hat := entityAt_append _ hentity (text.flatMap escapeByte)
      have hhead : escapeByte b = ampersand :: (escapeByte b).tail := entities_head _ hentity
      simp only at hat
      rw [hhead, List.cons_append] at hat ⊢
      rw [unescapeFrom, hat]
      simp only [List.length_cons, Nat.add_sub_cancel]
      rw [unescapeFrom_append, ih]
    · rw [heq, List.singleton_append, unescapeFrom, entityAt_plain hamp]
      simp only
      rw [ih]

/-! ### The page -/

inductive Segment
  | markup (text : Bytes)
  /-- a place for text of a record -/
  | slot
  deriving DecidableEq, Repr

def Segment.text : Segment → Bytes
  | .markup text => text
  | .slot => []

/-- The pieces go into the slots, in order. -/
def fill : List Segment → List Bytes → Bytes
  | [], _ => []
  | .markup text :: rest, pieces => text ++ fill rest pieces
  | .slot :: rest, piece :: pieces => piece ++ fill rest pieces
  | .slot :: rest, [] => fill rest []

def slotCount (segments : List Segment) : Nat :=
  (segments.filter fun segment => decide (segment = .slot)).length

theorem fill_append {segments : List Segment} {pieces : List Bytes} (rest : List Segment)
    (more : List Bytes) (h : slotCount segments = pieces.length) :
    fill (segments ++ rest) (pieces ++ more) = fill segments pieces ++ fill rest more := by
  induction segments generalizing pieces with
  | nil =>
    have hnil : pieces = [] := List.length_eq_zero_iff.mp h.symm
    rw [hnil]
    rfl
  | cons segment segments ih =>
    cases segment with
    | markup text =>
      rw [List.cons_append, fill, fill, ih h, List.append_assoc]
    | slot =>
      cases pieces with
      | nil => cases h
      | cons piece pieces =>
        have htail : slotCount segments = pieces.length := Nat.succ.inj h
        rw [List.cons_append, List.cons_append, fill, fill, ih htail, List.append_assoc]

/-- Pieces without markup add none. -/
theorem filter_fill {segments : List Segment} {pieces : List Bytes}
    (h : ∀ piece ∈ pieces, Inert piece) :
    (fill segments pieces).filter (fun b => decide (b ∈ markupBytes)) =
      (segments.flatMap Segment.text).filter fun b => decide (b ∈ markupBytes) := by
  induction segments generalizing pieces with
  | nil => rfl
  | cons segment segments ih =>
    cases segment with
    | markup text =>
      rw [fill, List.flatMap_cons, List.filter_append, List.filter_append, ih h]
      rfl
    | slot =>
      cases pieces with
      | nil =>
        rw [fill, ih h]
        rfl
      | cons piece pieces =>
        have hnone : piece.filter (fun b => decide (b ∈ markupBytes)) = [] := by
          rw [List.filter_eq_nil_iff]
          intro b hb hmem
          exact (h piece (List.mem_cons_self ..)).plain b hb (of_decide_eq_true hmem)
        rw [fill, List.filter_append, hnone, ih fun p hp => h p (List.mem_cons_of_mem _ hp)]
        rfl

/-- The markup of one item; the flag tells a deep record. -/
def itemMarkup (isDeep : Bool) : List Segment := [
  .markup (lit "<div class='file-item'><div class='file-info'><span>📄"), .slot,
  .markup (lit "</span><span class='file-type'>" ++
    (if isDeep then lit "深度存储" else lit "普通存储") ++ lit "</span><span>"), .slot,
  .markup (lit "</span><span>"), .slot,
  .markup (lit "</span></div><div class='file-actions'>" ++ lit "<button data-url=\""), .slot,
  .markup (lit "\" onclick=\"window.location=this.dataset.url\">⬇️ 下载</button>" ++
    lit "<button data-url=\""), .slot,
  .markup (lit "\" onclick=\"deleteFile(this.dataset.url)\" class='delete-btn'>🗑️ 删除</button>" ++
    lit "</div></div>")]

def skeleton (types : List Bool) : List Segment :=
  .markup (lit "<div class='file-list'><h3>已上传文件</h3>") ::
    (types.flatMap itemMarkup ++ [.markup (lit "</div>")])

/-- The value of both `data-url` attributes of an item: the link of a download, and the
`DeleteUrl` of a delete. -/
def dataUrl (file : StorageInfo) : Bytes := htmlEscape (urlEncode file.url_ true)

/-- What a record puts into the slots of its item. -/
def itemPieces (libs : Libs) (file : StorageInfo) : List Bytes :=
  [htmlEscape (fileName file.storage_path_), libs.formatSize file.fsize_,
    libs.formatTime file.mtime_, dataUrl file, dataUrl file]

def StorageInfo.isDeep (info : StorageInfo) : Bool := decide (info.storage_type_ = deep)

theorem fileItem_eq (libs : Libs) (file : StorageInfo) :
    fileItem libs file = fill (itemMarkup file.isDeep) (itemPieces libs file) := by
  simp only [fileItem, itemMarkup, itemPieces, fill, dataUrl, StorageInfo.isDeep,
    decide_eq_true_eq, List.append_assoc, List.append_nil]

theorem fill_items (libs : Libs) (files : List StorageInfo) (rest : List Segment) :
    fill ((files.map StorageInfo.isDeep).flatMap itemMarkup ++ rest)
        (files.flatMap (itemPieces libs)) =
      files.flatMap (fileItem libs) ++ fill rest [] := by
  induction files with
  | nil => rfl
  | cons file files ih =>
    have hslots : slotCount (itemMarkup file.isDeep) = (itemPieces libs file).length := rfl
    rw [List.map_cons, List.flatMap_cons, List.flatMap_cons, List.append_assoc,
      fill_append _ _ hslots, ih, ← fileItem_eq, List.flatMap_cons, List.append_assoc]

theorem generateFileList_eq (libs : Libs) (files : List StorageInfo) :
    generateFileList libs files =
      fill (skeleton (files.map StorageInfo.isDeep)) (files.flatMap (itemPieces libs)) := by
  rw [skeleton, fill, fill_items, generateFileList, List.append_assoc]
  simp only [fill, List.append_nil]

theorem slotCount_skeleton (types : List Bool) : slotCount (skeleton types) = 5 * types.length := by
  have hitems : slotCount (types.flatMap itemMarkup) = 5 * types.length := by
    induction types with
    | nil => rfl
    | cons isDeep types ih =>
      have hitem : slotCount (itemMarkup isDeep) = 5 := rfl
      rw [slotCount] at ih hitem
      rw [slotCount, List.flatMap_cons, List.filter_append, List.length_append, hitem, ih,
        List.length_cons]
      omega
  rw [slotCount] at hitems
  rw [slotCount, skeleton, List.filter_cons_of_neg (by decide), List.filter_append,
    List.length_append, hitems]
  rfl

/-- The sizes and times come without markup. -/
def FormatsPlain (libs : Libs) : Prop :=
  (∀ size, Inert (libs.formatSize size)) ∧ ∀ time, Inert (libs.formatTime time)

theorem itemPieces_inert {libs : Libs} (hlibs : FormatsPlain libs) (file : StorageInfo) :
    ∀ piece ∈ itemPieces libs file, Inert piece := by
  intro piece hpiece
  simp only [itemPieces, List.mem_cons, List.not_mem_nil, or_false] at hpiece
  rcases hpiece with rfl | rfl | rfl | rfl | rfl
  · exact htmlEscape_inert _
  · exact hlibs.1 _
  · exact hlibs.2 _
  · exact htmlEscape_inert _
  · exact htmlEscape_inert _

/-- The markup of the page is that of the skeleton, and escaped text can be read back. -/
theorem file_list_safe {libs : Libs} (hlibs : FormatsPlain libs) :
    (∀ files : List StorageInfo,
      generateFileList libs files =
          fill (skeleton (files.map StorageInfo.isDeep)) (files.flatMap (itemPieces libs)) ∧
        slotCount (skeleton (files.map StorageInfo.isDeep)) =
          (files.flatMap (itemPieces libs)).length ∧
        (∀ piece ∈ files.flatMap (itemPieces libs), Inert piece) ∧
        (generateFileList libs files).filter (fun b => decide (b ∈ markupBytes)) =
          ((skeleton (files.map StorageInfo.isDeep)).flatMap Segment.text).filter
            fun b => decide (b ∈ markupBytes)) ∧
      ∀ text, htmlUnescape (htmlEscape text) = text := by
  refine ⟨fun files => ?_, htmlUnescape_htmlEscape⟩
  have hinert : ∀ piece ∈ files.flatMap (itemPieces libs), Inert piece := by
    intro piece hpiece
    obtain ⟨file, -, hpiece⟩ := List.mem_flatMap.mp hpiece
    exact itemPieces_inert hlibs file piece hpiece
  refine ⟨generateFileList_eq libs files, ?_, hinert, ?_⟩
  · rw [slotCount_skeleton, List.length_map]
    induction files with
    | nil => rfl
    | cons file files ih =>
      have hitem : (itemPieces libs file).length = 5 := rfl
      have htail := ih fun piece hpiece => hinert piece (List.mem_append_right _ hpiece)
      rw [List.flatMap_cons, List.length_append, hitem, ← htail, List.length_cons]
      omega
  · rw [generateFileList_eq]
    exact filter_fill hinert

theorem inert_decimal (n : Nat) : Inert (decimal n) := by
  have hplain : ∀ b ∈ decimal n, b ∉ markupBytes ∧ b ≠ ampersand := by
    intro b hb
    obtain ⟨hlow, hhigh⟩ := decimal_digit hb
    have hspecial : ∀ c ∈ ampersand :: markupBytes, ¬(48 ≤ c.toNat ∧ c.toNat ≤ 57) := by
      decide +kernel
    constructor
    · exact fun h => hspecial b (List.mem_cons_of_mem _ h) ⟨hlow, hhigh⟩
    · rintro rfl
      exact hspecial _ (List.mem_cons_self ..) ⟨hlow, hhigh⟩
  rw [← htmlEscape_unchanged hplain]
  exact htmlEscape_inert _

theorem file_list_safe_plain :
    (∀ files : List StorageInfo,
      generateFileList (.plain (.ofPairs [])) files =
          fill (skeleton (files.map StorageInfo.isDeep))
            (files.flatMap (itemPieces (.plain (.ofPairs [])))) ∧
        slotCount (skeleton (files.map StorageInfo.isDeep)) =
          (files.flatMap (itemPieces (.plain (.ofPairs [])))).length ∧
        (∀ piece ∈ files.flatMap (itemPieces (.plain (.ofPairs []))), Inert piece) ∧
        (generateFileList (.plain (.ofPairs [])) files).filter
            (fun b => decide (b ∈ markupBytes)) =
          ((skeleton (files.map StorageInfo.isDeep)).flatMap Segment.text).filter
            fun b => decide (b ∈ markupBytes)) ∧
      ∀ text, htmlUnescape (htmlEscape text) = text :=
  file_list_safe ⟨inert_decimal, fun time => inert_decimal time.natAbs⟩

example : htmlUnescape (htmlEscape (lit "<a href='x'>&lt;&amp;")) = lit "<a href='x'>&lt;&amp;" := by
  decide

/-! ### Records and their links -/

/-- A server that has loaded its metadata, whatever they were, and served requests since. -/
def Reached (cfg : Config) (libs : Libs) (w : World) : Prop :=
  ∃ (w₀ w₁ : World) (log : Log),
    Runs (System Anything) (initLoad cfg libs.json) w₀.restart true w₁ ∧
      ServerRun Anything cfg libs w₁ log w

theorem Reached.listed {cfg : Config} {libs : Libs} {w : World} (hcfg : cfg.Accepted)
    (h : Reached cfg libs w) : ∀ url info, w.table.lookup url = some info →
      info.url_ = url ∧ Listed cfg info := by
  obtain ⟨w₀, w₁, log, hload, hrun⟩ := h
  have hc := hcfg.checked
  exact serverRun_records (fun a file info ha hr _ => ⟨rfl, hr.listed hc ha⟩)
    (loaded_listed hc hload) hrun

/-- What ends a header line, an attribute or a part of either. -/
def separators : Bytes := lit "\r\n\"'<>&=;, "

theorem encodedByte_plain {preserveSlash : Bool} {b : Byte}
    (h : encodedByte preserveSlash b = true) : b ∉ separators := by
  have hnone : ∀ slash, ∀ c ∈ separators, encodedByte slash c = false := by decide +kernel
  intro hmem
  rw [hnone preserveSlash b hmem] at h
  cases h

theorem htmlEscape_urlEncode (input : Bytes) (preserveSlash : Bool) :
    htmlEscape (urlEncode input preserveSlash) = urlEncode input preserveSlash := by
  have hmarkup : ∀ b ∈ ampersand :: markupBytes, b ∈ separators := by decide +kernel
  refine htmlEscape_unchanged fun b hb => ?_
  have hplain := encodedByte_plain (urlEncode_bytes input preserveSlash b hb)
  constructor
  · exact fun h => hplain (hmarkup b (List.mem_cons_of_mem _ h))
  · rintro rfl
    exact hplain (hmarkup _ (List.mem_cons_self ..))

theorem urlDecode_dataUrl {file : StorageInfo} (hnul : (0 : Byte) ∉ file.url_) :
    urlDecode (dataUrl file) = some file.url_ := by
  rw [dataUrl, htmlEscape_urlEncode]
  exact urlDecode_urlEncode hnul true

theorem itemPieces_links (libs : Libs) (file : StorageInfo) :
    (itemPieces libs file).drop 3 = [dataUrl file, dataUrl file] := rfl

/-- Encoding and decoding are inverse, and on a page of distinct records every link is
that of one key. -/
theorem links_decode (libs : Libs) :
    (∀ (input : Bytes) (preserveSlash : Bool), (0 : Byte) ∉ input →
        urlDecode (urlEncode input preserveSlash) = some input) ∧
      (∀ (input : Bytes) (preserveSlash : Bool),
        (∀ b ∈ urlEncode input preserveSlash,
          encodedByte preserveSlash b = true ∧ b ∉ separators) ∧
        htmlEscape (urlEncode input preserveSlash) = urlEncode input preserveSlash) ∧
      (∀ files : List StorageInfo, generateFileList libs files =
        fill (skeleton (files.map StorageInfo.isDeep)) (files.flatMap (itemPieces libs)) ∧
        ∀ file ∈ files, (itemPieces libs file).drop 3 = [dataUrl file, dataUrl file]) ∧
      ∀ cfg w, cfg.Accepted → Reached cfg libs w → ∀ url info,
        w.table.lookup url = some info →
        (0 : Byte) ∉ info.url_ →
        urlDecode (dataUrl info) = some url ∧
        ∀ url' info', w.table.lookup url' = some info' → (0 : Byte) ∉ info'.url_ →
          info ≠ info' → dataUrl info ≠ dataUrl info' := by
  refine ⟨fun input preserveSlash hnul => urlDecode_urlEncode hnul preserveSlash,
    fun input preserveSlash => ⟨fun b hb => ?_, htmlEscape_urlEncode input preserveSlash⟩,
    fun files => ⟨generateFileList_eq libs files, fun file _ => itemPieces_links libs file⟩, ?_⟩
  · have hencoded := urlEncode_bytes input preserveSlash b hb
    exact ⟨hencoded, encodedByte_plain hencoded⟩
  · intro cfg w hcfg hw url info hinfo hnul
    have hurl := (hw.listed hcfg url info hinfo).1
    refine ⟨hurl ▸ urlDecode_dataUrl hnul, fun url' info' hinfo' hnul' hne hsame => ?_⟩
    have hurl' := (hw.listed hcfg url' info' hinfo').1
    have hdecoded := urlDecode_dataUrl hnul
    rw [hsame, urlDecode_dataUrl hnul'] at hdecoded
    have hkeys : url' = url := by
      rw [← hurl, ← hurl']
      exact Option.some.inj hdecoded
    rw [hkeys, hinfo] at hinfo'
    exact hne (Option.some.inj hinfo')

/-! ### The order of the items -/

/-- The name of a listed record is the one its URL ends in, unless that is `..`; then no
other record has the name it is spelled with. -/
theorem Listed.fileName_inj {cfg : Config} {info info' : StorageInfo} (h : Listed cfg info)
    (h' : Listed cfg info') (hname : fileName info.storage_path_ = fileName info'.storage_path_) :
    info.url_ = info'.url_ := by
  have hlast : ∀ {i : StorageInfo}, Listed cfg i → lastComponent i.storage_path_ ≠ dotdot →
      Plain (lastComponent i.storage_path_) := by
    intro i hi hdd
    have hmem : lastComponent i.storage_path_ ∈ (key i.storage_path_).names := by
      rw [hi.child]
      exact List.mem_append_right _ (List.mem_singleton.mpr rfl)
    exact plain_of_mem_key hmem hdd
  have hplain : ∀ {i : StorageInfo}, Listed cfg i → lastComponent i.storage_path_ ≠ dotdot →
      fileName i.storage_path_ = lastComponent i.storage_path_ :=
    fun hi hdd => filename_of_plain_normal (hlast hi hdd)
  have hback : ∀ {i : StorageInfo}, Plain (fileName i.storage_path_) →
      lastComponent i.storage_path_ = fileName i.storage_path_ :=
    fun hp => filename_normal_of_plain hp
  rw [h.url, h'.url]
  by_cases hdd : lastComponent info.storage_path_ = dotdot
  · by_cases hdd' : lastComponent info'.storage_path_ = dotdot
    · rw [hdd, hdd']
    · have hp : Plain (fileName info.storage_path_) := by
        rw [hname, hplain h' hdd']
        exact hlast h' hdd'
      rw [hback hp, hname, hplain h' hdd']
  · have hp' : Plain (fileName info'.storage_path_) := by
      rw [← hname, hplain h hdd]
      exact hlast h hdd
    rw [hback hp', ← hname, hplain h hdd]

/-- What `std::sort` may make of the records: `GetAll` gives them in any order, and records
with one name may end up either way round. -/
structure SortedRecords (table : Table) (files : List StorageInfo) : Prop where
  records : files.Perm (table.entries.map fun entry => entry.2)
  order : files.Pairwise fun left right =>
    ¬fileName right.storage_path_ < fileName left.storage_path_

theorem byFileName_iff {left right : StorageInfo} : byFileName left right = true ↔
    ¬fileName right.storage_path_ < fileName left.storage_path_ := by
  simp [byFileName]

/-- What `ListFiles` makes of the records in any order is one of these. -/
theorem sortedRecords_mergeSort {table : Table} {items : List StorageInfo}
    (hitems : items.Perm (table.entries.map fun entry => entry.2)) :
    SortedRecords table (items.mergeSort byFileName) := by
  refine ⟨(List.mergeSort_perm _ _).trans hitems, ?_⟩
  have hsorted := @List.pairwise_mergeSort _ byFileName ?_ ?_ items
  · exact hsorted.imp byFileName_iff.mp
  · intro a b c hab hbc
    simp only [byFileName_iff, List.not_lt] at *
    exact List.le_trans hab hbc
  · intro a b
    simp only [Bool.or_eq_true, byFileName_iff, List.not_lt]
    exact List.le_total ..

/-- And each of these is made of some order. -/
theorem SortedRecords.arranged {table : Table} {files : List StorageInfo}
    (h : SortedRecords table files) :
    ∃ order, (arrange order (table.entries.map fun entry => entry.2)).mergeSort byFileName =
      files := by
  obtain ⟨order, horder⟩ := exists_arrange h.records
  refine ⟨order, ?_⟩
  rw [horder]
  exact List.mergeSort_of_pairwise (h.order.imp byFileName_iff.mpr)

theorem listFiles_sends {libs : Libs} {w w₁ : World} {r : Response}
    (hrun : Runs (System Anything) (listFiles libs) w r w₁) :
    ∃ files, SortedRecords w.table files ∧
      r = listPage libs (w.templates (lit "index.html")) files := by
  obtain ⟨⟨order, rfl⟩, -⟩ := wp_runs wp_listFiles hrun
  exact ⟨_, sortedRecords_mergeSort (arrange_perm order _), rfl⟩

theorem listFiles_runs (libs : Libs) (w : World) (order : List Nat) :
    ∃ w₁, Runs (System Anything) (listFiles libs) w (listPage libs (w.templates (lit "index.html"))
      ((arrange order (w.table.entries.map fun entry => entry.2)).mergeSort byFileName)) w₁ := by
  let choice : Choice := { ok := true, order := order }
  let w₁ := (answer (answer (answer w .loadTable fine).2 .iteration choice).2
    (.template (lit "index.html")) fine).2
  rw [listFiles_eq]
  exact ⟨w₁, .head ⟨trivial, fine, rfl⟩ (.head ⟨trivial, choice, rfl⟩
    (.head ⟨trivial, fine, rfl⟩ (.refl ..)))⟩

theorem SortedRecords.sent {libs : Libs} {w : World} {files : List StorageInfo}
    (h : SortedRecords w.table files) : ∃ w₁, Runs (System Anything) (listFiles libs) w
      (listPage libs (w.templates (lit "index.html")) files) w₁ := by
  obtain ⟨order, rfl⟩ := h.arranged
  exact listFiles_runs libs w order

theorem SortedRecords.mem {table : Table} {files : List StorageInfo} (h : SortedRecords table files)
    (info : StorageInfo) : info ∈ files ↔ ∃ url, table.lookup url = some info := by
  rw [h.records.mem_iff, List.mem_map]
  constructor
  · rintro ⟨entry, hentry, rfl⟩
    exact ⟨entry.1, mem_entries_iff.mp hentry⟩
  · rintro ⟨url, hurl⟩
    exact ⟨⟨url, info⟩, mem_entries_iff.mpr hurl, rfl⟩

/-- No two records of a reached table have one name. -/
theorem SortedRecords.strict {cfg : Config} {libs : Libs} {w : World} {files : List StorageInfo}
    (hcfg : cfg.Accepted) (hw : Reached cfg libs w) (h : SortedRecords w.table files) :
    files.Pairwise fun left right => fileName left.storage_path_ < fileName right.storage_path_ := by
  have hentries : (w.table.entries.map fun entry => entry.2).Pairwise
      fun left right => fileName left.storage_path_ ≠ fileName right.storage_path_ := by
    rw [List.pairwise_map]
    have hkeys : w.table.entries.Pairwise fun left right => left.1 ≠ right.1 :=
      List.nodupKeys_iff_pairwise.mp w.table.nodupKeys
    refine hkeys.imp_of_mem fun {left right} hleft hright hne hname => hne ?_
    obtain ⟨hurl, hl⟩ := hw.listed hcfg _ _ (mem_entries_iff.mp hleft)
    obtain ⟨hurl', hl'⟩ := hw.listed hcfg _ _ (mem_entries_iff.mp hright)
    rw [← hurl, ← hurl']
    exact hl.fileName_inj hl' hname
  have hdistinct : files.Pairwise
      fun left right => fileName left.storage_path_ ≠ fileName right.storage_path_ :=
    (h.records.pairwise_iff fun hne => hne.symm).mpr hentries
  refine (h.order.and hdistinct).imp fun {left right} hboth => ?_
  obtain ⟨hnot, hne⟩ := hboth
  by_contra hlt
  exact hne (List.le_antisymm (List.not_lt.mp hnot) (List.not_lt.mp hlt))

/-- `ListFiles` sends the page of the records in an order by their names, any such order;
there is but one, and it is that of the other server. -/
structure ListedAlike (libs : Libs) (w w' : World) : Prop where
  sends : ∀ r, (∃ w₁, Runs (System Anything) (listFiles libs) w r w₁) ↔
    ∃ files, SortedRecords w.table files ∧ r = listPage libs (w.templates (lit "index.html")) files
  determined : ∀ files files', SortedRecords w.table files → SortedRecords w'.table files' →
    files = files' ∧ files.Nodup ∧
      (∀ info, info ∈ files ↔ ∃ url, w.table.lookup url = some info) ∧
      files.Pairwise fun left right => fileName left.storage_path_ < fileName right.storage_path_
  replies : ∀ r r' w₁ w₁', Runs (System Anything) (listFiles libs) w r w₁ →
    Runs (System Anything) (listFiles libs) w' r' w₁' →
    w.templates (lit "index.html") = w'.templates (lit "index.html") → r = r'

/-- Two servers with the same records, however they came to them, list them alike. -/
theorem listing_determined {cfg : Config} {libs : Libs} {w w' : World} (hcfg : cfg.Accepted)
    (hw : Reached cfg libs w) (hw' : Reached cfg libs w')
    (hsame : ∀ info, (∃ url, w.table.lookup url = some info) ↔
      ∃ url, w'.table.lookup url = some info) :
    ListedAlike libs w w' := by
  have hlist : ∀ files files', SortedRecords w.table files → SortedRecords w'.table files' →
      files = files' ∧ files.Nodup ∧
        (∀ info, info ∈ files ↔ ∃ url, w.table.lookup url = some info) ∧
        files.Pairwise fun left right =>
          fileName left.storage_path_ < fileName right.storage_path_ := by
    intro files files' h h'
    have hstrict := h.strict hcfg hw
    have hstrict' := h'.strict hcfg hw'
    have hnodup : ∀ {l : List StorageInfo}, l.Pairwise (fun left right =>
        fileName left.storage_path_ < fileName right.storage_path_) → l.Nodup := by
      intro l hl
      refine List.nodup_iff_pairwise_ne.mpr (hl.imp fun {a b} hab heq => ?_)
      rw [heq] at hab
      exact List.lt_irrefl _ hab
    have hperm : files.Perm files' := by
      rw [List.perm_ext_iff_of_nodup (hnodup hstrict) (hnodup hstrict')]
      intro info
      rw [h.mem, h'.mem, hsame]
    refine ⟨hperm.eq_of_pairwise ?_ hstrict hstrict', hnodup hstrict, h.mem, hstrict⟩
    exact fun a b _ _ hab hba => absurd hba (List.lt_asymm hab)
  refine ⟨fun r => ?_, hlist, fun r r' w₁ w₁' hrun hrun' htemplate => ?_⟩
  · constructor
    · rintro ⟨w₁, hrun⟩
      exact listFiles_sends hrun
    · rintro ⟨files, hsorted, rfl⟩
      exact hsorted.sent
  · obtain ⟨files, hsorted, rfl⟩ := listFiles_sends hrun
    obtain ⟨files', hsorted', rfl⟩ := listFiles_sends hrun'
    rw [htemplate, (hlist files files' hsorted hsorted').1]

def pairLibs : Libs := .plain (textsOf [tableOf settledConfig [lit "x"],
  tableOf settledConfig [lit "x", lit "y"], tableOf settledConfig [lit "y"],
  tableOf settledConfig [lit "y", lit "x"]])

def uploadOfX : Op × List Choice :=
  (.upload (uploadOf (lit "eA==") low (lit "abc")), uploadFine (lit "AAAAAA") (lit "BBBBBB"))

def uploadOfY : Op × List Choice :=
  (.upload (uploadOf (lit "eQ==") low (lit "abc")), uploadFine (lit "CCCCCC") (lit "DDDDDD"))

/-- A process that has found no metadata, but a template. -/
def World.opened : World :=
  let w₀ := { World.empty with templates := fun _ => some (lit "\x7b\x7bFILE_LIST\x7d\x7d") }
  (playUnder Anything (initLoad settledConfig pairLibs.json) loadChoices w₀.restart).2

theorem reached_of_serve {requests : List (Op × List Choice)} {log : Log} {w : World}
    (h : serveUnder Anything settledConfig pairLibs requests World.opened = some (log, w)) :
    Reached settledConfig pairLibs w :=
  ⟨_, World.opened, log, playUnder_runs Anything (by decide +kernel), serveUnder_run h⟩

def pairFiles : List StorageInfo :=
  [recordAt settledConfig (lit "x"), recordAt settledConfig (lit "y")]

theorem sent_pair {w : World}
    (htemplate : w.templates (lit "index.html") = some (lit "\x7b\x7bFILE_LIST\x7d\x7d"))
    (hentries : w.table.entries.map (fun entry => entry.2) = pairFiles ∨
      w.table.entries.map (fun entry => entry.2) = pairFiles.reverse) :
    ∃ w₁, Runs (System Anything) (listFiles pairLibs) w
      (htmlPage (generateFileList pairLibs pairFiles)) w₁ := by
  have hsorted : SortedRecords w.table pairFiles := by
    refine ⟨?_, by decide +kernel⟩
    rcases hentries with he | he
    · rw [he]
    · rw [he]
      exact (List.reverse_perm _).symm
  have hpage : htmlPage (generateFileList pairLibs pairFiles) =
      listPage pairLibs (w.templates (lit "index.html")) pairFiles := by
    rw [htemplate]
    decide +kernel
  rw [hpage]
  exact hsorted.sent

/-- Two uploads, in one order and in the other: the list is the same. -/
theorem listing_determined_orders : ∃ w w' w₁ w₁',
    Reached settledConfig pairLibs w ∧ Reached settledConfig pairLibs w' ∧
    w.table.entries.map (fun entry => entry.2) = pairFiles ∧
    w'.table.entries.map (fun entry => entry.2) = pairFiles.reverse ∧
    Runs (System Anything) (listFiles pairLibs) w
      (htmlPage (generateFileList pairLibs pairFiles)) w₁ ∧
    Runs (System Anything) (listFiles pairLibs) w'
      (htmlPage (generateFileList pairLibs pairFiles)) w₁' ∧
    ListedAlike pairLibs w w' := by
  have hplay : (serveUnder Anything settledConfig pairLibs [uploadOfY, uploadOfX] World.opened).any
      (fun out => decide (out.2.table.entries =
        (tableOf settledConfig [lit "y", lit "x"]).entries ∧
        out.2.templates (lit "index.html") = some (lit "\x7b\x7bFILE_LIST\x7d\x7d"))) = true := by
    decide +kernel
  have hplay' : (serveUnder Anything settledConfig pairLibs [uploadOfX, uploadOfY] World.opened).any
      (fun out => decide (out.2.table.entries =
        (tableOf settledConfig [lit "x", lit "y"]).entries ∧
        out.2.templates (lit "index.html") = some (lit "\x7b\x7bFILE_LIST\x7d\x7d"))) = true := by
    decide +kernel
  obtain ⟨⟨log, w⟩, hrun, hchecked⟩ := (Option.any_eq_true _ _).mp hplay
  obtain ⟨⟨log', w'⟩, hrun', hchecked'⟩ := (Option.any_eq_true _ _).mp hplay'
  obtain ⟨hentries, htemplate⟩ := of_decide_eq_true hchecked
  obtain ⟨hentries', htemplate'⟩ := of_decide_eq_true hchecked'
  have hmem : ∀ entry, entry ∈ w.table.entries ↔ entry ∈ w'.table.entries := by
    have hperm : (tableOf settledConfig [lit "y", lit "x"]).entries.Perm
        (tableOf settledConfig [lit "x", lit "y"]).entries := by decide +kernel
    intro entry
    rw [hentries, hentries']
    exact hperm.mem_iff
  have hinfos : w.table.entries.map (fun entry => entry.2) = pairFiles := by
    rw [hentries]
    decide +kernel
  have hinfos' : w'.table.entries.map (fun entry => entry.2) = pairFiles.reverse := by
    rw [hentries']
    decide +kernel
  obtain ⟨w₁, hsent⟩ := sent_pair htemplate (Or.inl hinfos)
  obtain ⟨w₁', hsent'⟩ := sent_pair htemplate' (Or.inr hinfos')
  refine ⟨w, w', w₁, w₁', reached_of_serve hrun, reached_of_serve hrun', hinfos, hinfos', hsent,
    hsent', listing_determined (Config.shipped_accepted (by decide) (by decide))
      (reached_of_serve hrun) (reached_of_serve hrun') fun info => exists_congr fun url => ?_⟩
  exact (mem_entries_iff.symm.trans (hmem ⟨url, info⟩)).trans mem_entries_iff

end CloudStorage
