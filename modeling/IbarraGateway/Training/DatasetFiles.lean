import IbarraGateway.Lib.PaddedOrder
import IbarraGateway.Training.Learnable

/-!
# The dataset on disk

What `main` of the generator writes for a split, run after run into the same directories, and what `OCRDataset` of the training
finds there. An image is what a generator made; `load` is its way to the network's input.

* `Holds` : the two directories after any runs, as one table of samples.
* `dataset_read` : every sample is read back with its own label.
-/

namespace IbarraGateway.Training
open PaddedOrder (sorted fixedDigits)

/-! ## The generator -/

/-- A directory: names with what the files hold. -/
abbrev Directory (α : Type) : Type := List Char → Option α

def Directory.write {α : Type} (d : Directory α) (name : List Char) (contents : α) : Directory α :=
  Function.update d name (some contents)

/-- What `generate_sample` returns, with the draw of its label. -/
structure Sample (ι : Type) where
  image : ι
  draw : Draw

/-- `images` and `labels` of a split. -/
structure Files (ι : Type) where
  images : Directory ι
  labels : Directory (List Char)

/-- `_setup_dirs`, where nothing is yet. -/
def Files.new (ι : Type) : Files ι := ⟨fun _ => none, fun _ => none⟩

section Names
variable (split : List Char)

def stem (i : Nat) : List Char := split ++ '_' :: pad 6 i

def pngName (i : Nat) : List Char := stem split i ++ ['.', 'p', 'n', 'g']

def txtName (i : Nat) : List Char := stem split i ++ ['.', 't', 'x', 't']

variable {ι : Type}

/-- The body of the loop: `imwrite`, and `_write_label`. -/
def Files.save (f : Files ι) (i : Nat) (s : Sample ι) : Files ι :=
  ⟨f.images.write (pngName split i) s.image, f.labels.write (txtName split i) (s.draw.label ++ ['\n'])⟩

/-- The loop over a split; earlier files are overwritten, or stay. -/
def Files.generate (f : Files ι) (samples : List (Sample ι)) : Files ι :=
  samples.zipIdx.foldl (fun f x => f.save split x.2 x.1) f

end Names

/-! ## The reader -/

inductive DatasetError
  /-- `No .png images found`. -/
  | noImages
  /-- `label(s) missing`. -/
  | missing (labels : Nat)
  /-- `Failed to read image`, and a label that cannot be opened. -/
  | unreadable (path : List Char)
  | value (e : ValueError)
  deriving DecidableEq, Repr

/-- `*.png`. -/
def isPng (name : List Char) : Bool := ['.', 'p', 'n', 'g'].isSuffixOf name

/-- `with_suffix(".txt")`. -/
def withSuffixTxt (name : List Char) : List Char := name.rdropWhile (· ≠ '.') ++ ['t', 'x', 't']

/-- The white space of ASCII. -/
def isSpace (c : Char) : Bool := (9 ≤ c.toNat && c.toNat ≤ 13) || (28 ≤ c.toNat && c.toNat ≤ 32)

def strip (s : List Char) : List Char := (s.dropWhile (isSpace ·)).rdropWhile (isSpace ·)

section Read
variable {ι τ : Type} (load : ι → τ)

/-- `OCRDataset.__init__`; `listing` is what the directory answers, in any order. -/
def openDataset (f : Files ι) (listing : List (List Char)) : Except DatasetError (List (List Char)) :=
  let imagePaths := sorted (listing.filter isPng)
  if imagePaths = [] then .error .noImages
  else
    let missing := imagePaths.countP fun path => (f.labels (withSuffixTxt path)).isNone
    if 0 < missing then .error (.missing missing) else .ok imagePaths

structure Item (τ : Type) where
  image : τ
  label : List Nat
  length : Nat

/-- `OCRDataset.__getitem__`, for the path at the index. -/
def readItem (f : Files ι) (path : List Char) : Except DatasetError (Item τ) :=
  match f.images path with
  | none => .error (.unreadable path)
  | some img =>
    match f.labels (withSuffixTxt path) with
    | none => .error (.unreadable path)
    | some text =>
      match encodeLabel (strip text) with
      | .error e => .error (.value e)
      | .ok indices => .ok ⟨load img, indices, indices.length⟩

end Read

/-! ## Names -/

section Names
variable (split : List Char)

theorem pad_inj {i j : Nat} (h : pad 6 i = pad 6 j) : i = j := by
  have hvalue (k : Nat) : Nat.ofDigitChars 10 (pad 6 k) 0 = k := by
    rw [pad, Nat.ofDigitChars_append, Nat.ofDigitChars_replicate_zero, Nat.mul_zero, Nat.ofDigitChars_ten_toDigits]
  rw [← hvalue i, h, hvalue]

theorem stem_inj {i j : Nat} (h : stem split i = stem split j) : i = j :=
  pad_inj (List.cons.inj (List.append_cancel_left h)).2

theorem pngName_inj {i j : Nat} (h : pngName split i = pngName split j) : i = j :=
  stem_inj split (List.append_cancel_right h)

theorem txtName_inj {i j : Nat} (h : txtName split i = txtName split j) : i = j :=
  stem_inj split (List.append_cancel_right h)

theorem isPng_pngName (i : Nat) : isPng (pngName split i) = true := List.isSuffixOf_iff_suffix.mpr (List.suffix_append _ _)

/-- The label of an image has its name. -/
theorem withSuffixTxt_pngName (i : Nat) : withSuffixTxt (pngName split i) = txtName split i := by
  have hdrop : (pngName split i).rdropWhile (· ≠ '.') = stem split i ++ ['.'] := by
    have hname : pngName split i = stem split i ++ ['.'] ++ ['p'] ++ ['n'] ++ ['g'] := by simp [pngName]
    rw [hname, List.rdropWhile_concat_pos _ _ _ (by decide), List.rdropWhile_concat_pos _ _ _ (by decide),
      List.rdropWhile_concat_pos _ _ _ (by decide), List.rdropWhile_concat_neg _ _ _ (by decide)]
  rw [withSuffixTxt, hdrop, txtName, List.append_assoc]
  rfl

/-- Up to six digits, the names are in the order of the samples. -/
theorem pngName_lt {i j : Nat} (hij : i < j) (hj : j < 10 ^ 6) : pngName split i < pngName split j := by
  have hpad {k : Nat} (hk : k < 10 ^ 6) : pad 6 k = fixedDigits 6 k := PaddedOrder.replicate_append_toDigits (by decide) hk
  have hdigits : pad 6 i < pad 6 j := by
    rw [hpad (hij.trans hj), hpad hj]
    exact PaddedOrder.fixedDigits_lt hij hj
  have hname (k : Nat) : pngName split k = (split ++ ['_']) ++ (pad 6 k ++ ['.', 'p', 'n', 'g']) := by simp [pngName, stem]
  rw [hname, hname]
  refine List.append_left_lt (PaddedOrder.append_lt_append ?_ hdigits)
  rw [hpad (hij.trans hj), hpad hj, PaddedOrder.length_fixedDigits, PaddedOrder.length_fixedDigits]

end Names

/-! ## What is on the disk -/

section Disk
variable {ι : Type} (split : List Char)

/-- The directories hold a table of samples, and nothing else. -/
structure Holds (f : Files ι) (table : Nat → Option (Sample ι)) : Prop where
  image : ∀ i, f.images (pngName split i) = (table i).map Sample.image
  label : ∀ i, f.labels (txtName split i) = (table i).map fun s => s.draw.label ++ ['\n']
  only : ∀ name, f.images name ≠ none → ∃ i, name = pngName split i

theorem holds_new : Holds split (Files.new ι) fun _ => none :=
  ⟨fun _ => rfl, fun _ => rfl, fun _ hname => absurd rfl hname⟩

/-- **Step lemma.** -/
theorem Holds.save {f : Files ι} {table : Nat → Option (Sample ι)} (h : Holds split f table) (i : Nat) (s : Sample ι) :
    Holds split (f.save split i s) (Function.update table i (some s)) := by
  refine ⟨fun j => ?_, fun j => ?_, fun name hname => ?_⟩
  · by_cases hj : j = i
    · subst hj
      simp [Files.save, Directory.write]
    · have hne : pngName split j ≠ pngName split i := fun heq => hj (pngName_inj split heq)
      simpa [Files.save, Directory.write, hne, hj] using h.image j
  · by_cases hj : j = i
    · subst hj
      simp [Files.save, Directory.write]
    · have hne : txtName split j ≠ txtName split i := fun heq => hj (txtName_inj split heq)
      simpa [Files.save, Directory.write, hne, hj] using h.label j
  · by_cases heq : name = pngName split i
    · exact ⟨i, heq⟩
    · exact h.only name (by simpa [Files.save, Directory.write, heq] using hname)

/-- A run, over what was there. -/
theorem Holds.generate {f : Files ι} {table : Nat → Option (Sample ι)} (h : Holds split f table) (samples : List (Sample ι)) :
    Holds split (f.generate split samples) fun i => samples[i]?.or (table i) := by
  induction samples using List.reverseRecOn with
  | nil => simpa [Files.generate] using h
  | append_singleton samples s ih =>
    have hsave := ih.save split samples.length s
    have hfiles : f.generate split (samples ++ [s]) = (f.generate split samples).save split samples.length s := by
      simp [Files.generate, List.zipIdx_append, List.foldl_append]
    have htable : (fun i => (samples ++ [s])[i]?.or (table i)) =
        Function.update (fun i => samples[i]?.or (table i)) samples.length (some s) := by
      funext i
      by_cases hi : i = samples.length
      · subst hi
        simp
      · have hlength : (samples ++ [s])[i]? = samples[i]? := by
          rcases Nat.lt_or_gt_of_ne hi with hlt | hgt
          · exact List.getElem?_append_left hlt
          · rw [List.getElem?_eq_none (by simp; omega), List.getElem?_eq_none (by omega)]
        simp [hi, hlength]
    rw [hfiles, htable]
    exact hsave

/-- The runs of the generator so far. -/
def Files.generateAll (runs : List (List (Sample ι))) : Files ι := runs.foldl (fun f samples => f.generate split samples) (.new ι)

/-- The sample of the last run that had one with the index. -/
def latest (runs : List (List (Sample ι))) (i : Nat) : Option (Sample ι) :=
  runs.foldl (fun table samples => samples[i]?.or table) none

/-- The size of the largest run. -/
def size (runs : List (List (Sample ι))) : Nat := runs.foldl (fun n samples => max n samples.length) 0

/-- **Run lemma.** -/
theorem holds_generateAll (runs : List (List (Sample ι))) : Holds split (Files.generateAll split runs) (latest runs) := by
  induction runs using List.reverseRecOn with
  | nil => exact holds_new split
  | append_singleton runs samples ih =>
    have htable : latest (runs ++ [samples]) = fun i => samples[i]?.or (latest runs i) := by
      funext i
      simp [latest, List.foldl_append]
    have hfiles : Files.generateAll split (runs ++ [samples]) = (Files.generateAll split runs).generate split samples := by
      simp [Files.generateAll, List.foldl_append]
    rw [htable, hfiles]
    exact ih.generate split samples

theorem latest_ne_none_iff (runs : List (List (Sample ι))) (i : Nat) : latest runs i ≠ none ↔ i < size runs := by
  induction runs using List.reverseRecOn with
  | nil => simp [latest, size]
  | append_singleton runs samples ih =>
    have hlatest : latest (runs ++ [samples]) i = samples[i]?.or (latest runs i) := by simp [latest, List.foldl_append]
    have hsize : size (runs ++ [samples]) = max (size runs) samples.length := by simp [size, List.foldl_append]
    rw [hlatest, hsize, lt_max_iff, ← ih, ne_eq, Option.or_eq_none_iff, List.getElem?_eq_none_iff, not_and_or, not_le, or_comm]

end Disk

/-! ## What is read -/

theorem strip_newline {s : List Char} (h : ∀ c ∈ s, isSpace c = false) : strip (s ++ ['\n']) = s := by
  have hlast : (s ++ ['\n']).rdropWhile (isSpace ·) = s := by
    rw [List.rdropWhile_concat_pos _ _ _ (by decide), List.rdropWhile_eq_self_iff]
    intro hne
    simpa using h _ (List.getLast_mem hne)
  cases s with
  | nil => rfl
  | cons c s =>
    have hc : isSpace c = false := h c List.mem_cons_self
    rw [strip, List.cons_append, List.dropWhile_cons_of_neg (by simp [hc]), ← List.cons_append, hlast]

theorem Draw.label_chars (draw : Draw) : ∀ c ∈ draw.label, c ∈ chars := by
  obtain ⟨ws, w, hws, hne, hw, hlabel, -⟩ := draw.label_words
  have hlote : Word ['L', 'O', 'T', 'E'] := word_of_all (List.cons_ne_nil _ _) rfl
  rw [hlabel]
  exact mem_chars_joinColons (List.forall_mem_append.mpr
    ⟨hws, List.forall_mem_cons.mpr ⟨hlote, List.forall_mem_singleton.mpr hw⟩⟩)

/-- A label's file is read as the label. -/
theorem strip_label (draw : Draw) : strip (draw.label ++ ['\n']) = draw.label := by
  have hsolid : chars.all (fun c => !isSpace c) = true := rfl
  exact strip_newline fun c hc => by simpa using List.all_eq_true.mp hsolid c (draw.label_chars c hc)

section Read
variable {ι τ : Type} (load : ι → τ)

/-- An item is a sample's: its image, and the indices of the characters of its own label. -/
structure ReadFrom (s : Sample ι) (item : Item τ) : Prop where
  image : item.image = load s.image
  label : item.label.map (chars[·]?) = s.draw.label.map some
  length : item.length = item.label.length

theorem readItem_of_holds {split : List Char} {f : Files ι} {table : Nat → Option (Sample ι)} (h : Holds split f table) {i : Nat}
    {s : Sample ι} (hs : table i = some s) : ∃ item, readItem load f (pngName split i) = .ok item ∧ ReadFrom load s item := by
  obtain ⟨indices, hencode, hback⟩ := encodeLabel_ok s.draw.label_chars
  have himage : f.images (pngName split i) = some s.image := by rw [h.image, hs, Option.map_some]
  have hlabel : f.labels (txtName split i) = some (s.draw.label ++ ['\n']) := by rw [h.label, hs, Option.map_some]
  refine ⟨⟨load s.image, indices, indices.length⟩, ?_, rfl, hback, rfl⟩
  rw [readItem, himage, withSuffixTxt_pngName, hlabel]
  dsimp only
  rw [strip_label, hencode]

/-- A loop whose turns all succeed. -/
theorem mapM_forall₂ {α β γ ε : Type} {f : β → Except ε γ} {name : α → β} {P : α → γ → Prop} {xs : List α}
    (h : ∀ x ∈ xs, ∃ y, f (name x) = .ok y ∧ P x y) : ∃ ys, (xs.map name).mapM f = .ok ys ∧ List.Forall₂ P xs ys := by
  induction xs with
  | nil => exact ⟨[], rfl, .nil⟩
  | cons x xs ih =>
    obtain ⟨y, hy, hP⟩ := h x List.mem_cons_self
    obtain ⟨ys, hys, hall⟩ := ih fun x hx => h x (List.mem_cons_of_mem _ hx)
    refine ⟨y :: ys, ?_, .cons hP hall⟩
    rw [List.map_cons, List.mapM_cons, hy, hys]
    rfl

/-- What the directory of the images answers: its names, each once, in any order. -/
def Lists (d : Directory ι) (listing : List (List Char)) : Prop := listing.Nodup ∧ ∀ name, name ∈ listing ↔ d name ≠ none

/-- The names that the runs wrote. -/
theorem lists_iff (split : List Char) (runs : List (List (Sample ι))) {listing : List (List Char)} :
    Lists (Files.generateAll split runs).images listing ↔ listing.Perm ((List.range (size runs)).map (pngName split)) := by
  have hholds := holds_generateAll split runs
  have hnodup : ((List.range (size runs)).map (pngName split)).Nodup :=
    List.nodup_range.map fun i j heq => pngName_inj split heq
  have hmem (name : List Char) : name ∈ (List.range (size runs)).map (pngName split) ↔
      (Files.generateAll split runs).images name ≠ none := by
    have hpresent (i : Nat) : (Files.generateAll split runs).images (pngName split i) ≠ none ↔ i < size runs := by
      rw [hholds.image, ← latest_ne_none_iff]
      simp
    rw [List.mem_map]
    constructor
    · rintro ⟨i, hi, rfl⟩
      exact (hpresent i).mpr (List.mem_range.mp hi)
    · intro hname
      obtain ⟨i, rfl⟩ := hholds.only name hname
      exact ⟨i, List.mem_range.mpr ((hpresent i).mp hname), rfl⟩
  constructor
  · rintro ⟨hlisted, hlisting⟩
    exact (List.perm_ext_iff_of_nodup hlisted hnodup).mpr fun name => by rw [hlisting, hmem]
  · intro hperm
    exact ⟨hperm.nodup_iff.mpr hnodup, fun name => by rw [hperm.mem_iff, hmem]⟩

/-- **The dataset is read back.** After any runs of the generator into the directories of a split, with at least one sample,
whatever order they are listed in, every index of a sample is one item, which has the image and the label of the last run
that wrote it; up to a million samples, the items are in the order of the samples. -/
theorem dataset_read (split : List Char) (runs : List (List (Sample ι))) (hsize : 0 < size runs) (listing : List (List Char))
    (hlisting : Lists (Files.generateAll split runs).images listing) :
    ∃ order paths items, order.Perm (List.range (size runs)) ∧ (size runs ≤ 10 ^ 6 → order = List.range (size runs)) ∧
      openDataset (Files.generateAll split runs) listing = .ok paths ∧
      paths.mapM (readItem load (Files.generateAll split runs)) = .ok items ∧
      List.Forall₂ (fun i item => ∃ s, latest runs i = some s ∧ ReadFrom load s item) order items := by
  have hholds := holds_generateAll split runs
  have hpng : listing.filter isPng = listing := by
    rw [List.filter_eq_self]
    intro name hname
    obtain ⟨i, rfl⟩ := hholds.only name ((hlisting.2 name).mp hname)
    exact isPng_pngName split i
  have hperm := (lists_iff split runs).mp hlisting
  obtain ⟨order, horder, hsorted, hinorder⟩ := PaddedOrder.sorted_map hperm
  have hmem {i : Nat} (hi : i ∈ order) : i < size runs := List.mem_range.mp (horder.mem_iff.mp hi)
  have hitem : ∀ i ∈ order, ∃ item, readItem load (Files.generateAll split runs) (pngName split i) = .ok item ∧
      ∃ s, latest runs i = some s ∧ ReadFrom load s item := by
    intro i hi
    obtain ⟨s, hs⟩ := Option.ne_none_iff_exists'.mp ((latest_ne_none_iff runs i).mpr (hmem hi))
    obtain ⟨item, hread, hfrom⟩ := readItem_of_holds load hholds hs
    exact ⟨item, hread, s, hs, hfrom⟩
  obtain ⟨items, hread, hall⟩ := mapM_forall₂ hitem
  refine ⟨order, order.map (pngName split), items, horder, fun hle => hinorder ?_, ?_, hread, hall⟩
  · refine List.pairwise_lt_range.imp_of_mem fun _ hj hij => ?_
    exact (pngName_lt split hij (lt_of_lt_of_le (List.mem_range.mp hj) hle)).le
  · have hne : order.map (pngName split) ≠ [] := by
      have hlength := horder.length_eq
      rw [List.length_range] at hlength
      exact List.ne_nil_of_length_pos (by rw [List.length_map]; omega)
    have hmissing : (order.map (pngName split)).countP
        (fun path => ((Files.generateAll split runs).labels (withSuffixTxt path)).isNone) = 0 := by
      rw [List.countP_eq_zero]
      intro path hpath
      obtain ⟨i, hi, rfl⟩ := List.mem_map.mp hpath
      obtain ⟨s, hs⟩ := Option.ne_none_iff_exists'.mp ((latest_ne_none_iff runs i).mpr (hmem hi))
      rw [withSuffixTxt_pngName, hholds.label, hs]
      simp
    unfold openDataset
    simp only [hpng, hsorted, hmissing]
    rw [if_neg hne, if_neg (Nat.lt_irrefl 0)]

end Read

/-- Two samples, and then a run with one. -/
def rerun : List (List (Sample Bool)) := [[⟨true, venceDraw⟩, ⟨true, venceDraw⟩], [⟨false, venceDraw⟩]]

/-- The second sample of the first run is still there. -/
theorem rerun_read : ∃ paths items,
    openDataset (Files.generateAll ['t'] rerun) [pngName ['t'] 1, pngName ['t'] 0] = .ok paths ∧
      paths.mapM (readItem id (Files.generateAll ['t'] rerun)) = .ok items ∧ items.map Item.image = [false, true] := by
  have hlists := (lists_iff ['t'] rerun).mpr (List.Perm.swap (pngName ['t'] 0) (pngName ['t'] 1) [])
  obtain ⟨order, paths, items, -, horder, hopen, hread, hall⟩ := dataset_read id ['t'] rerun (by decide) _ hlists
  refine ⟨paths, items, hopen, hread, ?_⟩
  rw [horder (by decide)] at hall
  obtain _ | ⟨⟨s, hs, hfirst⟩, _ | ⟨⟨s', hs', hsecond⟩, _ | _⟩⟩ := hall
  cases hs
  cases hs'
  rw [List.map_cons, List.map_cons, hfirst.image, hsecond.image]
  rfl

end IbarraGateway.Training
