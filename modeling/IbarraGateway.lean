import IbarraGateway.Lib.Machine
import IbarraGateway.Lib.Records
import IbarraGateway.Norvi.Device
import IbarraGateway.Norvi.Networking
import IbarraGateway.Norvi.Replay
import IbarraGateway.Norvi.Ledger
import IbarraGateway.Norvi.TimeSync
import IbarraGateway.Norvi.TaskWatchdog
import IbarraGateway.Norvi.EventTime
import IbarraGateway.Lib.Proto3
import IbarraGateway.ModbusBridge.TelemetryOrchestrator
import IbarraGateway.GatewayTranslator.MqttWorker
import IbarraGateway.GatewayTranslator.WireAgreement
import IbarraGateway.CloudSync.Sync
import IbarraGateway.CloudSync.Interleaving
import IbarraGateway.CloudSync.Lifecycle
import IbarraGateway.CloudSync.Rounds
import IbarraGateway.CloudSync.Blocking
import IbarraGateway.Lib.DecimalText
import IbarraGateway.Lib.TextSearch
import IbarraGateway.Ota.Command
import IbarraGateway.Ota.Manager
import IbarraGateway.Ota.Authenticity
import IbarraGateway.Ota.Trust
import IbarraGateway.Ota.Rollback
import IbarraGateway.Ota.Calls
import IbarraGateway.Ota.Installation
import IbarraGateway.Lib.BoundedFifo
import IbarraGateway.GatewayTranslator.HasuraClient
import IbarraGateway.GatewayTranslator.MainLoop
import IbarraGateway.GatewayTranslator.Conservation
import IbarraGateway.GatewayTranslator.Shutdown
import IbarraGateway.GatewayTranslator.Requeue
import IbarraGateway.ModbusBridge.ModbusRTUMaster
import IbarraGateway.ModbusBridge.SerialLine
import IbarraGateway.ModbusBridge.Attribution
import IbarraGateway.GemaVision.ConfigManager
import IbarraGateway.GemaVision.ConfigFrame
import IbarraGateway.GemaVision.ConfigRoundTrip
import IbarraGateway.GemaVision.SpatialCalibrator
import IbarraGateway.GemaVision.CalibrationFile
import IbarraGateway.ModbusBridge.FaultIsolation
import IbarraGateway.GemaVision.ThreadSafeQueue
import IbarraGateway.GemaVision.VideoPipeline
import IbarraGateway.GemaVision.BufferOwnership
import IbarraGateway.GemaVision.FrameOrder
import IbarraGateway.GemaVision.StopOrder
import IbarraGateway.GemaVision.Daemon
import IbarraGateway.GemaVision.CalibrationRun
import IbarraGateway.Lib.Ctc
import IbarraGateway.Training.Train
import IbarraGateway.Training.DatasetGen
import IbarraGateway.Training.Learnable
import IbarraGateway.Lib.Numeral
import IbarraGateway.Lib.StreamText
import IbarraGateway.Lib.Utf8
import IbarraGateway.Lib.JsonText
import IbarraGateway.GemaVision.InferenceResult
import IbarraGateway.EdgeWorker.EdgeWorker
import IbarraGateway.GemaVision.ResultTokens
import IbarraGateway.EdgeWorker.VisionContract
import IbarraGateway.GatewayTranslator.Buffer
import IbarraGateway.GemaVision.QueueHistory
import IbarraGateway.Ota.SignedMessage
import IbarraGateway.Ota.VersionFormat
import IbarraGateway.Lib.ShellQuoting
import IbarraGateway.Ota.Injection
import IbarraGateway.Ota.ResumedDownload
import IbarraGateway.EdgeWorker.Ingestion
import IbarraGateway.CloudSync.RetryChain
import IbarraGateway.GemaVision.MalformedUpdate
import IbarraGateway.Ota.FlatCommand
import IbarraGateway.GemaVision.LprnetOcrEngine
import IbarraGateway.Lib.Crc
import IbarraGateway.ModbusBridge.ErrorDetection
import IbarraGateway.GemaVision.InferenceOrchestrator
import IbarraGateway.GemaVision.Projection
import IbarraGateway.GemaVision.ShutdownDrain
import IbarraGateway.ModbusBridge.ResponseDecoding
import IbarraGateway.GemaVision.Restart
import IbarraGateway.GemaVision.TelemetryCollector
import IbarraGateway.Lib.JsonReading
import IbarraGateway.GemaVision.HomographyFile
import IbarraGateway.GemaVision.ResultRoundTrip
import IbarraGateway.GemaVision.ColorValidator
import IbarraGateway.GemaVision.PostProcessDispatcher
import IbarraGateway.GemaVision.CaptureFiles
import IbarraGateway.GemaVision.ThermalMonitor
import IbarraGateway.GemaVision.ConfigFlush
import IbarraGateway.GemaVision.WatchdogProtocol
import IbarraGateway.Lib.Debounce
import IbarraGateway.Norvi.Debounce
import IbarraGateway.Lib.Smoothing
import IbarraGateway.Norvi.EMAFilter
import IbarraGateway.Lib.ScalarCode
import IbarraGateway.VisionEdge.Engine
import IbarraGateway.GemaVision.KeepaliveTiming
import IbarraGateway.Lib.WrappedClock
import IbarraGateway.Norvi.Reconnect
import IbarraGateway.CloudSync.Drain
import IbarraGateway.EdgeWorker.StoreAndForward
import IbarraGateway.Ota.PowerLoss
import IbarraGateway.GatewayTranslator.Recovery
import IbarraGateway.VisionEdge.Watchdog
import IbarraGateway.Lib.JsonPrint
import IbarraGateway.Lib.Columns
import IbarraGateway.GemaVision.TelemetryPayload
import IbarraGateway.SystemMonitor.SystemMonitorLogic
import IbarraGateway.Norvi.PayloadSerializer
import IbarraGateway.Simulation.Simulator
import IbarraGateway.VisionEdge.DefectReport
import IbarraGateway.EdgeWorker.Fleet
import IbarraGateway.Lib.PaddedOrder
import IbarraGateway.Training.DatasetFiles
import IbarraGateway.Training.Validation
import IbarraGateway.GemaVision.Bookkeeping
