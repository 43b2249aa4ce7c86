import DocumentViews.Text.Blank

/-!
The kernel table, in which all documents lie: its name and the names of its
columns. Each of these identifiers fills a slot, and the slots have an order.
No identifier may be blank.
-/

namespace DocumentViews

structure Kernel where
  /-- The name of the table. -/
  table : String
  /-- The column of the documents. -/
  data : String
  /-- The column of the tags. -/
  tags : String
  /-- The column that tells data sets apart. -/
  bucket : String
  /-- The column of the time of the event. -/
  eventAt : String
  /-- The column of the time of the insertion. -/
  createdAt : String
  deriving DecidableEq

namespace Kernel

inductive Slot where
  | table
  | data
  | tags
  | bucket
  | eventAt
  | createdAt
  deriving DecidableEq

namespace Slot

/-- The slots in order. -/
def all : List Slot := [table, data, tags, bucket, eventAt, createdAt]

def name : Slot → String
  | table => "table"
  | data => "data"
  | tags => "tags"
  | bucket => "bucket"
  | eventAt => "event_at"
  | createdAt => "created_at"

def ofName? (name : String) : Option Slot :=
  all.find? (·.name = name)

theorem mem_all (slot : Slot) : slot ∈ all := by
  cases slot <;> decide

theorem ofName?_name (slot : Slot) : ofName? slot.name = some slot := by
  cases slot <;> decide

end Slot

/-- The kernel that holds where nothing else is said. -/
def standard : Kernel :=
  ⟨"kernel", "data", "tags", "bucket", "event_at", "created_at"⟩

def get (kernel : Kernel) : Slot → String
  | .table => kernel.table
  | .data => kernel.data
  | .tags => kernel.tags
  | .bucket => kernel.bucket
  | .eventAt => kernel.eventAt
  | .createdAt => kernel.createdAt

def set (kernel : Kernel) (slot : Slot) (identifier : String) : Kernel :=
  match slot with
  | .table => { kernel with table := identifier }
  | .data => { kernel with data := identifier }
  | .tags => { kernel with tags := identifier }
  | .bucket => { kernel with bucket := identifier }
  | .eventAt => { kernel with eventAt := identifier }
  | .createdAt => { kernel with createdAt := identifier }

theorem get_set (kernel : Kernel) (slot other : Slot) (identifier : String) :
    (kernel.set slot identifier).get other =
      if other = slot then identifier else kernel.get other := by
  cases slot <;> cases other <;> rfl

/-- The first slot with a blank identifier. -/
def blankSlot? (kernel : Kernel) : Option Slot :=
  Slot.all.find? fun slot => Text.isBlank (kernel.get slot)

/-- The columns that every view takes over, in the order of the views. -/
def metadata (kernel : Kernel) : List String :=
  [kernel.tags, kernel.createdAt, kernel.eventAt]

end Kernel

end DocumentViews
