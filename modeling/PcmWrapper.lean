import PcmWrapper.Library.Actions
import PcmWrapper.Library.FlatTable
import PcmWrapper.Library.DelimitedText
import PcmWrapper.Library.KeyedStore
import PcmWrapper.ErrorHandling
import PcmWrapper.JsonInput
import PcmWrapper.HwCounterJsonReader
import PcmWrapper.DatabaseLoads
import PcmWrapper.DatabaseEncodings
import PcmWrapper.CounterRecorder
import PcmWrapper.BoundedRecording
import PcmWrapper.CsvTable
import PcmWrapper.DistinctEvents
import PcmWrapper.Library.Interleaving
import PcmWrapper.PrintingBlock
import PcmWrapper.RecorderGuards
import PcmWrapper.SupportedModels
import PcmWrapper.CodeNumerals
import PcmWrapper.DatabaseDirectory
import PcmWrapper.FailedLoads
import PcmWrapper.HwCountersStore
import PcmWrapper.OverfullRecorder
import PcmWrapper.RdpmcCounterHandle
import PcmWrapper.RefusedEvents
import PcmWrapper.DirectoryLoads
import PcmWrapper.ReaderRuns
import PcmWrapper.ContextRuns
import PcmWrapper.MeasuredTotals
import PcmWrapper.MultithreadedProgram
