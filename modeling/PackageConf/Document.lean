import PackageConf.Config
/-!
# Configurations as documents

A `Document` is the data that the formats for exchange have in common: named entries in a fixed
order, each a text, a list of texts, or a list of tables of such. `Config.document` lays out a
configuration as one. Masks are written as texts, in a way that is left open, and nothing is left
out.
-/
namespace PackageConf

/-- A value without structure below it. -/
inductive Leaf where
  | text (s : String)
  | texts (xs : List String)
deriving DecidableEq, Repr

abbrev Table := List (String × Leaf)

/-- The value of a name at the top of a document. -/
inductive Entry where
  | leaf (l : Leaf)
  | tables (ts : List Table)
deriving DecidableEq, Repr

abbrev Document := List (String × Entry)

def Repository.table (write : Mask.Writer) (r : Repository) : Table :=
  [("name", .text r.name), ("sig_level", .text (r.sigLevel.describe write)),
   ("servers", .texts r.servers)]

/-- A configuration as a document. -/
def Config.document (write : Mask.Writer) (c : Config) : Document :=
  [("cache_dir", .leaf (.texts c.cacheDir)),
   ("hold_pkg", .leaf (.texts c.holdPkg)),
   ("sync_first", .leaf (.texts c.syncFirst)),
   ("ignore_group", .leaf (.texts c.ignoreGroup)),
   ("ignore_pkg", .leaf (.texts c.ignorePkg)),
   ("no_extract", .leaf (.texts c.noExtract)),
   ("no_upgrade", .leaf (.texts c.noUpgrade)),
   ("root_dir", .leaf (.text c.rootDir)),
   ("db_path", .leaf (.text c.dbPath)),
   ("gpg_dir", .leaf (.text c.gpgDir)),
   ("log_file", .leaf (.text c.logFile)),
   ("architecture", .leaf (.text c.architecture)),
   ("xfer_command", .leaf (.text c.xferCommand)),
   ("clean_method", .leaf (.text c.cleanMethod)),
   ("sig_level", .leaf (.text (c.sigLevel.describe write))),
   ("local_file_sig_level", .leaf (.text (c.localFileSigLevel.describe write))),
   ("remote_file_sig_level", .leaf (.text (c.remoteFileSigLevel.describe write))),
   ("options", .leaf (.text (c.options.describe write))),
   ("repos", .tables (c.repos.map (Repository.table write)))]

end PackageConf
