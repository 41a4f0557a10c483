import Maxcso.Output
import Maxcso.Reader.Termination
import Maxcso.Reader.Indexed
import Maxcso.Library.RoundUp
import Maxcso.Reader.Documented
import Maxcso.Library.Pipeline
import Maxcso.Output.Positions
import Maxcso.Output.IndexFits
import Maxcso.Writer
import Maxcso.Writer.Archive
import Maxcso.Library.ShiftMask
import Maxcso.Reader.Addressing
import Maxcso.Reader.Accesses
import Maxcso.Reader.RawCopies
import Maxcso.Library.BlockImage
import Maxcso.Reader.InOrder
import Maxcso.Cli
import Maxcso.Cli.Admissible
import Maxcso.Writer.Course
import Maxcso.Writer.Feeding
import Maxcso.Writer.Flow
import Maxcso.Writer.Calls
import Maxcso.Writer.Front
import Maxcso.Writer.Placement
import Maxcso.Writer.Contents
import Maxcso.Writer.Accepting
import Maxcso.Writer.Batches
import Maxcso.Writer.Refinement
import Maxcso.Writer.Runs
import Maxcso.Writer.Failures
import Maxcso.Library.PipelineWork
import Maxcso.Writer.Work
import Maxcso.Writer.Completing
import Maxcso.Sector.Competing
import Maxcso.BufferPool.Outstanding
import Maxcso.Checksum
import Maxcso.Checksum.Folding
import Maxcso.Cli.Inputs
import Maxcso.Cli.Collisions
import Maxcso.Sector.Accounts
import Maxcso.Sector.Assembly
import Maxcso.Reader.Frames
import Maxcso.Writer.Finality
import Maxcso.Writer.Steady
import Maxcso.Writer.Filed
import Maxcso.Task
import Maxcso.Writer.Outcomes
import Maxcso.Writer.Measuring
import Maxcso.Writer.Schedules
import Maxcso.Writer.Decompressing
import Maxcso.Writer.Recovering
import Maxcso.RoundTrip.Files
import Maxcso.RoundTrip.Dax
import Maxcso.RoundTrip.Cso
import Maxcso.Cli.ArgumentVector
import Maxcso.Sector.BlockStreams
import Maxcso.Cli.Globbing
import Maxcso.Task.Batch
import Maxcso.Task.Reporting
import Maxcso.Writer.Reasons
import Maxcso.Writer.Reports
import Maxcso.Task.Conserving
import Maxcso.Checksum.Machine
import Maxcso.Checksum.Undisturbed
import Maxcso.Checksum.Reading
