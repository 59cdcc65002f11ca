import PostingIndex.Chain.ChangeList
import PostingIndex.Command.Report
import PostingIndex.Config.Document
import PostingIndex.Directory
import PostingIndex.Game.Batch
import PostingIndex.Game.Document

/-!
# Commands

A command works on the files of a directory.  It prints a report, leaves
notices, and either succeeds or fails with an error.

## Contents

Commands, their outcomes, and running a command in a directory.
-/

namespace PostingIndex

/-- What can be done with index files. -/
inductive Command where
  | create (file : String) (config : Config)
  | createFrom (file configFile : String)
  | info (file : String) (json : Bool)
  | update (file : String) (entity : Entity) (changes : Changes) (json : Bool)
  | ingest (file changesFile : String) (json : Bool)
  | games (file : String) (entity : Entity) (expand json : Bool)
  | blocks (file : String) (json : Bool)
  | statistics (file : String) (json : Bool)
  | verify (file : String) (json : Bool)
  | exportLists (file : String) (indented : Bool)

/-- What running a command came to. -/
structure Outcome where
  directory : Directory
  output : String := ""
  notices : List Notice := []
  stop : Option IndexError := none

namespace Outcome

def failed (directory : Directory) (notices : List Notice) (error : IndexError) :
    Outcome :=
  { directory, notices := notices ++ error.notices, stop := some error }

def after (directory : Directory) (notices : List Notice)
    (result : Except IndexError α) (next : α -> Outcome) : Outcome :=
  match result with
  | .error error => failed directory notices error
  | .ok value => next value

end Outcome

namespace Directory

def readConfig (directory : Directory) (path : String) : Except IndexError Config :=
  match directory.readText path with
  | .error fault => .error (.file fault)
  | .ok text => Config.ofDocument text

def readChanges (directory : Directory) (path : String) :
    Except IndexError (List GameChange) :=
  match directory.readText path with
  | .error fault => .error (.file fault)
  | .ok text =>
      match GameChange.listOfJson? text with
      | none => .error .changesSyntax
      | some changes => .ok changes

def readIndex (directory : Directory) (path : String) : Except IndexError Index :=
  match directory.read path with
  | .error fault => .error (.file fault)
  | .ok bytes => File.read bytes

def openView (directory : Directory) (path : String) : Except IndexError FileView :=
  match directory.map path with
  | .error fault => .error (.file fault)
  | .ok bytes => FileView.ofFile bytes

def writeIndex (directory : Directory) (pack : List UInt8 -> List UInt8) (path : String)
    (index : Index) (now : UInt64) : Except IndexError Directory :=
  match directory.write path (File.writeWith pack index now) with
  | .error fault => .error (.file fault)
  | .ok directory => .ok directory

end Directory

namespace Command

/-!
## Steps of commands
-/

def loadedNotice (file : String) (index : Index) : Notice :=
  .loaded file index.pool.numBlocks.toNat index.pool.free.size

def wroteNotice (file : String) (index : Index) : Notice :=
  .wrote file index.pool.numBlocks.toNat index.pool.free.size

def withIndex (directory : Directory) (file : String)
    (next : Index -> List Notice -> Outcome) : Outcome :=
  Outcome.after directory [] (directory.readIndex file) fun index =>
    next index [loadedNotice file index]

def saving (directory : Directory) (pack : List UInt8 -> List UInt8) (file : String)
    (index : Index) (now : UInt64) (notices : List Notice)
    (next : Directory -> List Notice -> Outcome) : Outcome :=
  Outcome.after directory notices (directory.writeIndex pack file index now)
    fun directory => next directory (notices ++ [wroteNotice file index])

def withView (directory : Directory) (file : String) (next : FileView -> Outcome) :
    Outcome :=
  Outcome.after directory [] (directory.openView file) next

/-!
## The commands
-/

def runCreate (directory : Directory) (pack : List UInt8 -> List UInt8) (now : UInt64)
    (file : String) (config : Config) : Outcome :=
  Outcome.after directory [] (Index.new config) fun index =>
    saving directory pack file index now [] fun directory notices =>
      { directory, output := Report.created file, notices }

def runInfo (directory : Directory) (file : String) (json : Bool) : Outcome :=
  withView directory file fun view =>
    let extents := view.types.mapM fun type =>
      (view.known type).map fun known => (type, known)
    Outcome.after directory [] extents fun extents =>
      let summary : Report.FileSummary :=
        { path := file, header := view.header, size := view.file.size, extents }
      { directory
        output := if json then Report.summaryJson summary else Report.summaryText summary }

def runUpdate (directory : Directory) (pack : List UInt8 -> List UInt8) (now : UInt64)
    (file : String) (entity : Entity) (changes : Changes) (json : Bool) : Outcome :=
  withIndex directory file fun index notices =>
    Outcome.after directory notices (index.update entity changes) fun updated =>
      let index := updated.index
      saving directory pack file index now (notices ++ [.entityUpdated updated.update])
        fun directory notices =>
          Outcome.after directory notices (index.games false entity) fun games =>
            { directory
              output := Report.updated json entity games.length index.pool
              notices }

def runIngest (directory : Directory) (pack : List UInt8 -> List UInt8) (now : UInt64)
    (file changesFile : String) (json : Bool) : Outcome :=
  Outcome.after directory [] (directory.readChanges changesFile) fun batch =>
    withIndex directory file fun index notices =>
      let run := index.apply batch
      let notices := notices ++ run.notices batch.length
      match run.stop with
      | some error => { directory, notices, stop := some error }
      | none =>
          saving directory pack file run.index now notices fun directory notices =>
            { directory
              output := Report.applied json batch.length run.updated.length
                run.postingsChanged
              notices }

def runGames (directory : Directory) (file : String) (entity : Entity)
    (expand json : Bool) : Outcome :=
  withView directory file fun view =>
    Outcome.after directory [] (view.games expand entity) fun games =>
      { directory, output := Report.games json entity games }

def runBlocks (directory : Directory) (file : String) (json : Bool) : Outcome :=
  withView directory file fun view =>
    Outcome.after directory [] view.freeIds fun free =>
      Outcome.after directory [] (Report.liveBlocks view.numBlocks free) fun live =>
        { directory, output := Report.blocks json view.numBlocks live free }

def runStatistics (directory : Directory) (file : String) (json : Bool) : Outcome :=
  withIndex directory file fun index notices =>
    Outcome.after directory notices index.statistics fun statistics =>
      { directory
        output :=
          if json then Report.statisticsJson statistics
          else Report.statisticsText statistics
        notices }

def runVerify (directory : Directory) (file : String) (json : Bool) : Outcome :=
  withIndex directory file fun index notices =>
    { directory
      output := Report.verified json file index.pool.numBlocks
      notices }

def allPostings (index : Index) : Except IndexError (List (Entity × List Posting)) :=
  index.heads.chains.mapM fun start =>
    (index.postings start.entity).map fun postings => (start.entity, postings)

def runExport (directory : Directory) (file : String) (indented : Bool) : Outcome :=
  withIndex directory file fun index notices =>
    Outcome.after directory notices (allPostings index) fun entities =>
      { directory
        output := Report.exported indented index.config entities
        notices }

/--
Runs a command in a directory; files are written at the time `now`, with their
head tables packed by `pack`.
-/
def runWith (pack : List UInt8 -> List UInt8) (directory : Directory) (now : UInt64) :
    Command -> Outcome
  | create file config => runCreate directory pack now file config
  | createFrom file configFile =>
      Outcome.after directory [] (directory.readConfig configFile) fun config =>
        runCreate directory pack now file config
  | info file json => runInfo directory file json
  | update file entity changes json =>
      runUpdate directory pack now file entity changes json
  | ingest file changesFile json => runIngest directory pack now file changesFile json
  | games file entity expand json => runGames directory file entity expand json
  | blocks file json => runBlocks directory file json
  | statistics file json => runStatistics directory file json
  | verify file json => runVerify directory file json
  | exportLists file indented => runExport directory file indented

def run (directory : Directory) (now : UInt64) (command : Command) : Outcome :=
  command.runWith Lz4.compress directory now

end Command

end PostingIndex
